import Conditions.Diagnostic
import Conditions.Grammar
import Conditions.Lexing.Basic

/-!
# Reading whole inputs

A list of tokens is read as a whole: a production must match from the first token and leave none
over, and the tree is turned into a node. This is where a parser that fails becomes an error.
-/

namespace Conditions

/-- What an input may be read as. -/
inductive Goal where
  | condition
  | variableRef
  | valueSet
  | newState
  deriving DecidableEq, Repr

namespace Goal

/-- What the user is told that an input should be. -/
def title : Goal → String
  | condition => "condition"
  | variableRef => "variable"
  | valueSet => "value set"
  | newState => "new state"

/-- The production that an input must match. -/
def production : Goal → Production
  | condition => .condition
  | variableRef => .variableRef
  | valueSet => .valueSet
  | newState => .newState

/-- The node that the tree of an input stands for. -/
def build (goal : Goal) (tree : Tree) : Except BuildError Node :=
  match goal with
  | condition => tree.toCondition.map .condition
  | variableRef => tree.toVariable.map .variableRef
  | valueSet => tree.toValueSet.map .valueSet
  | newState => tree.toNewState

end Goal

/-- The codes of parse errors with what they stand for. -/
def parseErrorCodes : List (String × String) :=
  [("P001", "Input does not match the production"),
    ("P002", "Unconsumed tokens after a complete production")]

/-- The error of an input that does not match a production as a whole: a report, and the token at
fault. -/
structure ParseError where
  diagnostic : Diagnostic
  token? : Option Token

namespace ParseError

/-- The code of an error. -/
def code (e : ParseError) : Option String :=
  e.diagnostic.code

/-- The error for an input that does not match at all. The first token is absent if there are no
tokens; otherwise it is shown in the hint, so there is no error without its text. -/
def noMatch (title : String) : Option Token → Except UnwritableNumber ParseError
  | none => .ok {
      diagnostic := {
        message := s!"Expected {title}, found end of input"
        code := some "P001"
        help := some s!"The input is empty, but a {title} was expected." }
      token? := none }
  | some first => do
    let shown ← first.text
    return {
      diagnostic := {
        message := s!"Expected {title}"
        location := first.location
        code := some "P001"
        help := some s!"The tokens starting at {shown} do not form a {title}."
        suggestions := some ["Check that every '(' has a matching ')'",
          "Check the keyword at the start of each form"] }
      token? := some first }

/-- The error for an input of which a part matches. The first token behind the part is `extra`, and
stands at `index`. An index counts tokens, and has few digits itself. -/
def trailing (title : String) (extra : Token) (index : Int) :
    Except UnwritableNumber ParseError := do
  let shown ← extra.text
  let help :=
    s!"A complete {title} ends before token {index}; the rest of the input was not consumed."
  return {
    diagnostic := {
      message := s!"Unexpected {shown} after {title}"
      location := extra.location
      code := some "P002"
      help := some help
      suggestions := some ["Remove the extra tokens",
        "Wrap several conditions in (and ...) or (or ...)"] }
    token? := some extra }

end ParseError

/-- Why an input is not read. -/
inductive ReadError where
  /-- It does not match the production as a whole. -/
  | parse (e : ParseError)
  /-- The tree that it matches with stands for no node. -/
  | build (e : BuildError)
  /-- It does not match, but a number in the token at fault cannot be written. -/
  | unwritable (e : UnwritableNumber)
  /-- The production ends with an error. -/
  | raised (e : RunError)
  /-- The budget of the grammar does not suffice. -/
  | unfinished

/-- A parse error ends the reading, or what prevents it. -/
def ReadError.ofParse : Except UnwritableNumber ParseError → ReadError
  | .ok e => .parse e
  | .error e => .unwritable e

/-- Reads tokens as a whole. An error of the production would end the reading. -/
def read (goal : Goal) (tokens : Array Token) : Except ReadError Node :=
  match goal.production.outcome? tokens 0 with
  | some (.matched tree index) =>
    match tokenAt? tokens index with
    | some extra => .error (.ofParse (ParseError.trailing goal.title extra index))
    | none => (goal.build tree).mapError .build
  | some .failed => .error (.ofParse (ParseError.noMatch goal.title tokens[0]?))
  | some (.raised e) => .error (.raised e)
  | none => .error .unfinished

/-- Tokens with the parse errors of the attempts to read them. -/
structure Reader where
  tokens : Array Token
  errors : List ParseError

namespace Reader

/-- A reader of tokens. -/
def ofTokens (tokens : List Token) : Reader :=
  ⟨tokens.toArray, []⟩

/-- Reads the tokens as a whole, and keeps the parse error if there is one. -/
def read (r : Reader) (goal : Goal) : Reader × Except ReadError Node :=
  match Conditions.read goal r.tokens with
  | .error (.parse e) => ({ r with errors := r.errors ++ [e] }, .error (.parse e))
  | result => (r, result)

end Reader

/-- Why a source text is not read. -/
inductive SourceReadError where
  /-- It has no tokens. -/
  | source (e : SourceError)
  /-- Its tokens are not read. -/
  | read (e : ReadError)

/-- Reads a source text as a condition. -/
def readSource (source filename : String) : Except SourceReadError Node := do
  let tokens ← (tokenize source filename).mapError .source
  (read .condition tokens.toArray).mapError .read

end Conditions
