import Conditions.Location
import Conditions.Text.UpperCase

/-!
# Diagnostics

What a user is told about a fault: a message with a severity, and where they are known the place, a
code, a hint and suggestions.
-/

namespace Conditions

/-- A report of one fault. -/
structure Diagnostic where
  message : String
  location : Option Location := none
  severity : String := "error"
  code : Option String := none
  help : Option String := none
  suggestions : Option (List String) := none
  deriving DecidableEq, Repr

/-- The text of a diagnostic, a line for each part that is there. The code is not shown, and an
empty hint or an empty list of suggestions is left out. -/
def Diagnostic.text (d : Diagnostic) : Except UnwritableNumber String := do
  let severity := Text.upper d.severity
  let message := d.message
  let location ← match d.location with
    | some l => do
      let place ← l.text
      pure s!"  --> {place}\n"
    | none => pure ""
  let help := match d.help.getD "" with
    | "" => ""
    | help => s!"  help: {help}\n"
  let suggestions := match d.suggestions.getD [] with
    | [] => ""
    | list => "  suggestions:\n" ++ String.join (list.map (fun s => s!"    - {s}\n"))
  return s!"{severity}: {message}\n" ++ location ++ help ++ suggestions

end Conditions
