import Conditions.Diagnostic
import Conditions.Lexing.Suggestion
import Conditions.Text.Hexadecimal
import Conditions.Text.Printable

/-!
# Lexical faults

What can be wrong with a source text, and how it is reported.
-/

namespace Conditions

/-- A fault in a source text. -/
inductive Fault where
  /-- No lexeme begins with the text, which is one character. -/
  | invalidCharacter (text : String)
  /-- A string literal is not closed. -/
  | unterminatedString
  /-- A number ends in its point. -/
  | invalidNumber (lexeme : String)
  /-- A word is not a keyword. -/
  | unknownWord (word : String)
  deriving DecidableEq, Repr

/-- The codes of faults with what they stand for. -/
def faultCodes : List (String × String) :=
  [("L001", "Invalid character"), ("L002", "Unterminated string literal"),
    ("L003", "Invalid numeric literal"), ("L005", "Unknown word")]

namespace Fault

/-- The code of a fault. -/
def code : Fault → String
  | invalidCharacter _ => "L001"
  | unterminatedString => "L002"
  | invalidNumber _ => "L003"
  | unknownWord _ => "L005"

/-- The message of a fault. -/
def message : Fault → String
  | invalidCharacter text => s!"Invalid character: '{text}'"
  | unterminatedString => "Unterminated string literal"
  | invalidNumber lexeme => s!"Invalid numeric literal: '{lexeme}'"
  | unknownWord word => s!"Unknown word: '{word}'"

/-- The hint for a character that cannot be shown. -/
def codePointHint (c : Char) : String :=
  let digits := String.ofList ((Text.hexDigits 4 c.toNat).map Char.toUpper)
  s!"Non-printable character (Unicode: U+{digits}) is not allowed."

/-- The hint for a fault. -/
def help : Fault → String
  | invalidCharacter text =>
    match text.toList.find? (fun c => !Text.isPrintable c) with
    | none => s!"The character '{text}' is not valid in condition source."
    | some c => codePointHint c
  | unterminatedString => "String literals must be closed with a matching \x22 quote."
  | invalidNumber _ => "Numbers are written as an optional '-', digits, and an optional fraction."
  | unknownWord _ => "Bare words must be one of VAR, EQUALS, AND, OR or _. " ++
      "Variable names are written as strings."

/-- The suggestions for a fault; some kinds of faults never have any. -/
def suggestions : Fault → Option (List String)
  | invalidCharacter _ | invalidNumber _ => none
  | unterminatedString =>
    some ["Add a closing \x22 quote", "Check for unescaped quotes in the string"]
  | unknownWord word => some ((suggestKeywords word).map (fun k => s!"Did you mean '{k}'?"))

/-- The report of a fault. -/
def diagnostic (fault : Fault) (location : Option Location) : Diagnostic where
  message := fault.message
  location := location
  code := some fault.code
  help := some fault.help
  suggestions := fault.suggestions

end Fault

/-- A text of which a single character was expected. -/
structure NotOneCharacter where
  length : Nat
  deriving DecidableEq, Repr

/-- The words for a text that is not a single character. -/
def NotOneCharacter.message (e : NotOneCharacter) : String :=
  let length := e.length
  s!"ord() expected a character, but string of length {length} found"

/-- The fault of a text in which no lexeme begins. A text that cannot be shown as it is must be a
single character, since its code point is then reported. -/
def Fault.ofText (text : String) : Except NotOneCharacter Fault :=
  if Text.allPrintable text || text.length = 1 then .ok (.invalidCharacter text)
  else .error ⟨text.length⟩

/-- A fault at a place in a source. -/
structure LexicalError where
  fault : Fault
  location : Location
  deriving DecidableEq, Repr

/-- The report of a lexical error. -/
def LexicalError.diagnostic (e : LexicalError) : Diagnostic :=
  e.fault.diagnostic (some e.location)

end Conditions
