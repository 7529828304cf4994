import Conditions.Parser.Run

/-!
# The grammar of conditions

```text
number      NUMBER                          the number
string      STRING                          the text
value set   "(" number* ")"                 the list of the numbers
new state   number | "_"                    the number or the token
variable    "(" VAR string ")"              the keyword and the name
condition   "(" EQUALS variable number ")"  the keyword, the variable and the number
          | "(" (AND|OR) condition* ")"     the keyword and the operands
```

The trees keep the keywords, by which the forms are told apart, and drop the parentheses.
-/

namespace Conditions

namespace Token

/-- The value of the token that a tree is; other trees carry none. -/
def payloadOf : Tree → Tree
  | .token t => t.payload
  | _ => .absent

end Token

namespace Tree

/-- The first of the trees in a list. -/
def first : Tree → Tree
  | list (tree :: _) => tree
  | _ => absent

/-- A tree in front of a list of trees, where the two are given as a pair. -/
def consPair : Tree → Tree
  | list [head, list trees] => list (head :: trees)
  | tree => tree

end Tree

namespace Grammar

/-- Numbers. -/
def number : Parser :=
  (Parser.transform (.token .number) (fun tree => .ok (Token.payloadOf tree))).rename "number"

/-- Texts. -/
def string : Parser :=
  (Parser.transform (.token .string) (fun tree => .ok (Token.payloadOf tree))).rename "string"

/-- The values that a variable may take. -/
def valueSet : Parser :=
  (Parser.transform (.parenthesized [.many number]) (fun tree => .ok tree.first)).rename "value_set"

/-- The state that a transition leads to. -/
def newState : Parser :=
  (Parser.choice [number, .token .wildcard]).rename "new_state"

/-- Variables. -/
def variableRef : Parser :=
  (Parser.parenthesized [.token .var, string]).rename "variable"

/-- The place of conditions, which refer to themselves. -/
def conditionPlace : Nat := 0

/-- Conditions. -/
def condition : Parser :=
  .named "condition" (.forward conditionPlace)

/-- Conditions on the value of one variable. -/
def equality : Parser :=
  (Parser.parenthesized [.token .equals, variableRef, number]).rename "equality"

/-- The keyword that joins the operands of a compound condition. -/
def connective : Parser :=
  .choice [.token .and, .token .or]

/-- Compound conditions. -/
def compound : Parser :=
  (Parser.transform (.parenthesized [connective, .many condition])
    (fun tree => .ok tree.consPair)).rename "boolean"

/-- The places of the grammar with their parsers. -/
def store : Store :=
  [⟨some "condition", some (.choice [equality, compound])⟩]

/-- A budget for the productions. A condition within a condition lies eight levels deeper and two
tokens further on, and a repetition takes up a token in each of its rounds. -/
def budget (tokens : Array Token) : Nat :=
  16 * (tokens.size + 2)

end Grammar

/-- A production of the grammar. -/
inductive Production where
  | number
  | string
  | valueSet
  | newState
  | variableRef
  | condition
  | leftParen
  | rightParen
  | equality
  | connective
  | compound
  deriving DecidableEq, Repr

namespace Production

/-- All productions. -/
def all : List Production :=
  [number, string, valueSet, newState, variableRef, condition, leftParen, rightParen, equality,
    connective, compound]

/-- The name of a production. -/
def name : Production → String
  | number => "number"
  | string => "string"
  | valueSet => "value_set"
  | newState => "new_state"
  | variableRef => "variable"
  | condition => "condition"
  | leftParen => "lparen"
  | rightParen => "rparen"
  | equality => "equality"
  | connective => "connective"
  | compound => "boolean"

/-- The production with the given name. -/
def ofName? (name : String) : Option Production :=
  all.find? (fun production => production.name == name)

/-- The parser of a production. -/
def parser : Production → Parser
  | number => Grammar.number
  | string => Grammar.string
  | valueSet => Grammar.valueSet
  | newState => Grammar.newState
  | variableRef => Grammar.variableRef
  | condition => Grammar.condition
  | leftParen => .token .leftParen
  | rightParen => .token .rightParen
  | equality => Grammar.equality
  | connective => Grammar.connective
  | compound => Grammar.compound

/-- Runs the parser of a production on tokens from an index on. -/
def run (production : Production) (tokens : Array Token) (i : Int) : Option Attempt :=
  production.parser.attempt Grammar.store tokens (Grammar.budget tokens) i

/-- How a production ends on tokens from an index on, unless the budget does not suffice. -/
def outcome? (production : Production) (tokens : Array Token) (i : Int) : Option (Outcome Tree) :=
  (production.run tokens i).map Attempt.outcome

end Production

end Conditions
