import Conditions.Number.Basic
import Conditions.Text.Quoted

/-!
# Typed syntax

The nodes that a reader of the condition language works with: conditions over named variables, the
sets of values a variable may take, and the states a transition may lead to.
-/

namespace Conditions

/-- How the operands of a compound condition are joined. -/
inductive Connective where
  | and
  | or
  deriving DecidableEq, Repr

namespace Connective

/-- The keyword of a connective. -/
def word : Connective → String
  | and => "and"
  | or => "or"

/-- The name of a connective. -/
def name : Connective → String
  | and => "AND"
  | or => "OR"

end Connective

/-- A condition on the values of variables. -/
inductive Condition where
  /-- The variable `name` has the value. -/
  | equality (name : String) (value : Number)
  /-- All or some of the operands hold; there may be none. -/
  | compound (connective : Connective) (operands : List Condition)
  deriving Repr

/-- A node of the typed syntax. -/
inductive Node where
  /-- A number. -/
  | number (value : Number)
  /-- Any state. -/
  | wildcard
  /-- A variable. -/
  | variableRef (name : String)
  /-- The values a variable may take. -/
  | valueSet (values : List Number)
  /-- A condition. -/
  | condition (c : Condition)
  deriving Repr

/-- The type of a node. -/
inductive NodeKind where
  | number
  | wildcard
  | variableRef
  | valueSet
  | equality
  | compound
  deriving DecidableEq, Repr

namespace NodeKind

/-- All types of nodes. -/
def all : List NodeKind :=
  [number, wildcard, variableRef, valueSet, equality, compound]

/-- The name of a type of nodes. -/
def name : NodeKind → String
  | number => "NumberLit"
  | wildcard => "Wildcard"
  | variableRef => "VariableRef"
  | valueSet => "ValueSet"
  | equality => "EqualityCondition"
  | compound => "BooleanCondition"

/-- The name of a type of nodes in capitals. -/
def constantName : NodeKind → String
  | number => "NUMBER_LIT"
  | wildcard => "WILDCARD"
  | variableRef => "VARIABLE_REF"
  | valueSet => "VALUE_SET"
  | equality => "EQUALITY_CONDITION"
  | compound => "BOOLEAN_CONDITION"

/-- The type of nodes with the given name. -/
def ofName? (name : String) : Option NodeKind :=
  all.find? (fun kind => kind.name == name)

end NodeKind

mutual

/-- Whether two conditions are equal, numbers being compared by value. -/
def Condition.same : Condition → Condition → Bool
  | .equality m x, .equality n y => m == n && x.same y
  | .compound c xs, .compound d ys => c == d && Condition.sameAll xs ys
  | _, _ => false

/-- Whether two lists of conditions are equal, element by element. -/
def Condition.sameAll : List Condition → List Condition → Bool
  | [], [] => true
  | x :: xs, y :: ys => x.same y && Condition.sameAll xs ys
  | _, _ => false

end

namespace Node

/-- The type of a node. -/
def kind : Node → NodeKind
  | number _ => .number
  | wildcard => .wildcard
  | variableRef _ => .variableRef
  | valueSet _ => .valueSet
  | condition (.equality _ _) => .equality
  | condition (.compound _ _) => .compound

/-- The nodes directly below a node. -/
def children : Node → List Node
  | number _ | wildcard | variableRef _ => []
  | valueSet values => values.map number
  | condition (.equality name value) => [variableRef name, number value]
  | condition (.compound _ operands) => operands.map condition

/-- Whether two lists of numbers are equal, element by element. -/
def sameNumbers : List Number → List Number → Bool
  | [], [] => true
  | x :: xs, y :: ys => x.same y && sameNumbers xs ys
  | _, _ => false

/-- Whether two nodes are equal, numbers being compared by value. -/
def same : Node → Node → Bool
  | number x, number y => x.same y
  | wildcard, wildcard => true
  | variableRef m, variableRef n => m == n
  | valueSet xs, valueSet ys => sameNumbers xs ys
  | condition c, condition d => c.same d
  | _, _ => false

end Node

/-- The descriptions of a fixed number of parts: a single one is followed by a comma. -/
def tupleText : List String → String
  | [] => "()"
  | [x] => s!"({x},)"
  | xs => "(" ++ ", ".intercalate xs ++ ")"

/-- The description of a number node. -/
def Number.describe (x : Number) : Except UnwritableNumber String := do
  let value ← x.text
  return s!"NumberLit(value={value})"

/-- The description of a variable. -/
def describeVariable (name : String) : String :=
  let name := Text.quoted name
  s!"VariableRef(name={name})"

/-- The description of a connective. -/
def Connective.describe (c : Connective) : String :=
  let name := c.name
  let word := Text.quoted c.word
  s!"<Connective.{name}: {word}>"

mutual

/-- The description of a condition. -/
def Condition.describe : Condition → Except UnwritableNumber String
  | .equality name value => do
    let subject := describeVariable name
    let value ← value.describe
    return s!"EqualityCondition(variable={subject}, value={value})"
  | .compound connective operands => do
    let connective := connective.describe
    let operands := tupleText (← Condition.describeAll operands)
    return s!"BooleanCondition(connective={connective}, operands={operands})"

/-- The descriptions of conditions. -/
def Condition.describeAll : List Condition → Except UnwritableNumber (List String)
  | [] => .ok []
  | c :: cs => do
    let text ← c.describe
    let texts ← Condition.describeAll cs
    return text :: texts

end

/-- The description of a node. -/
def Node.describe : Node → Except UnwritableNumber String
  | .number value => value.describe
  | .wildcard => .ok "Wildcard()"
  | .variableRef name => .ok (describeVariable name)
  | .valueSet values => do
    let values := tupleText (← values.mapM Number.describe)
    return s!"ValueSet(values={values})"
  | .condition c => c.describe

end Conditions
