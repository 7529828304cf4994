import Conditions.Tree.Basic

/-!
# From trees to nodes

The typed nodes that trees stand for. A tree of another shape is refused with the part at fault.
-/

namespace Conditions

/-- Why a tree stands for no node. -/
inductive BuildError where
  /-- A number was expected. -/
  | notANumber (tree : Tree)
  /-- The tree of a value set is not a list. -/
  | malformedValueSet (tree : Tree)
  /-- The tree of a variable is not its keyword with a name. -/
  | malformedVariable (tree : Tree)
  /-- The tree of an equality does not have three parts. -/
  | malformedEquality (tree : Tree)
  /-- The tree of a condition does not begin with the keyword of a condition. -/
  | malformedCondition (tree : Tree)

namespace BuildError

/-- What is said of the tree at fault. -/
def complaint : BuildError → String
  | notANumber _ => "expected a number, got "
  | malformedValueSet _ => "malformed value set tree: "
  | malformedVariable _ => "malformed variable tree: "
  | malformedEquality _ => "malformed equality tree: "
  | malformedCondition _ => "malformed condition tree: "

/-- The tree at fault. -/
def tree : BuildError → Tree
  | notANumber tree | malformedValueSet tree | malformedVariable tree | malformedEquality tree
  | malformedCondition tree => tree

/-- The words for a tree that stands for no node. If the tree cannot be described, they say that. -/
def message (e : BuildError) : String :=
  match e.tree.describe with
  | .ok description => e.complaint ++ description
  | .error unwritable => unwritable.message

end BuildError

/-- Why a function of trees gives no tree. -/
inductive Refusal where
  /-- A tree stands for no node. -/
  | build (e : BuildError)
  /-- A number in a tree cannot be written. -/
  | unwritable (e : UnwritableNumber)
  /-- Anything else, in words of its own. -/
  | other (words : String)

/-- The words for a refusal. -/
def Refusal.message : Refusal → String
  | build e => e.message
  | unwritable e => e.message
  | other words => words

namespace Tree

/-- The number that a tree is. Truth values are not numbers here. -/
def toNumber : Tree → Except BuildError Number
  | number x => .ok x
  | tree => .error (.notANumber tree)

/-- The numbers of a value set. -/
def toValueSet : Tree → Except BuildError (List Number)
  | list items => items.mapM toNumber
  | tree => .error (.malformedValueSet tree)

/-- The state that a transition leads to: a number, or any state. -/
def toNewState (tree : Tree) : Except BuildError Node :=
  match tree with
  | token t => if t.kind = .wildcard then .ok .wildcard else .error (.notANumber tree)
  | _ => tree.toNumber.map .number

/-- The name of a variable. -/
def toVariable (tree : Tree) : Except BuildError String :=
  match tree with
  | list [token t, text name] =>
    if t.kind = .var then .ok name else .error (.malformedVariable tree)
  | _ => .error (.malformedVariable tree)

mutual

/-- The condition that a tree stands for. -/
def toCondition : Tree → Except BuildError Condition
  | list (token t :: parts) =>
    match t.kind with
    | .equals =>
      match parts with
      | [subject, value] => do
        let name ← subject.toVariable
        let value ← value.toNumber
        return .equality name value
      | _ => .error (.malformedEquality (list (token t :: parts)))
    | .and => (toConditions parts).map (.compound .and)
    | .or => (toConditions parts).map (.compound .or)
    | _ => .error (.malformedCondition (list (token t :: parts)))
  | tree => .error (.malformedCondition tree)

/-- The conditions that trees stand for; the first tree at fault is reported. -/
def toConditions : List Tree → Except BuildError (List Condition)
  | [] => .ok []
  | tree :: trees => do
    let c ← tree.toCondition
    let cs ← toConditions trees
    return c :: cs

end

end Tree

end Conditions
