import Conditions.Node.Basic

/-!
# Visiting nodes

A visitor goes through the nodes below a node from left to right, a node before those below it. It
may have a handler for each type of nodes, which notes the nodes of that type. Where it has none, it
goes through the nodes below.
-/

namespace Conditions

/-- What a visitor does at the nodes of one type, besides noting them. -/
structure Handler (α : Type) where
  /-- Whether it goes through the nodes below, or leaves them out. -/
  descends : Node → Bool
  /-- Its answer. -/
  answer : Node → α

/-- The handlers of a visitor. -/
abbrev Handlers (α : Type) := NodeKind → Option (Handler α)

/-- The outcome of a visit. -/
structure Visit (α : Type) where
  /-- The nodes that were noted, in order. -/
  noted : List Node
  /-- The answer of the handler for the node that was visited, if there is one. -/
  answer? : Option α

namespace Node

/-- A node below another one is smaller. -/
theorem sizeOf_lt_of_mem_children {n child : Node} (h : child ∈ n.children) :
    sizeOf child < sizeOf n := by
  cases n with
  | number _ => simp [children] at h
  | wildcard => simp [children] at h
  | variableRef _ => simp [children] at h
  | valueSet values =>
    obtain ⟨x, hx, rfl⟩ := List.mem_map.1 h
    have := List.sizeOf_lt_of_mem hx
    simp only [number.sizeOf_spec, valueSet.sizeOf_spec]
    omega
  | condition c =>
    cases c with
    | equality name value =>
      simp only [children, List.mem_cons, List.not_mem_nil, or_false] at h
      rcases h with rfl | rfl
      · simp only [variableRef.sizeOf_spec, condition.sizeOf_spec, Condition.equality.sizeOf_spec]
        omega
      · simp only [number.sizeOf_spec, condition.sizeOf_spec, Condition.equality.sizeOf_spec]
        omega
    | compound connective operands =>
      obtain ⟨c, hc, rfl⟩ := List.mem_map.1 h
      have := List.sizeOf_lt_of_mem hc
      simp only [condition.sizeOf_spec, Condition.compound.sizeOf_spec]
      omega

/-- Visits a node. -/
def visitWith {α : Type} (handlers : Handlers α) (n : Node) : Visit α :=
  let below := n.children.attach.flatMap (fun ⟨child, _⟩ => (child.visitWith handlers).noted)
  match handlers n.kind with
  | none => ⟨below, none⟩
  | some h => ⟨n :: if h.descends n then below else [], some (h.answer n)⟩
termination_by sizeOf n
decreasing_by exact sizeOf_lt_of_mem_children (by assumption)

end Node

/-- What a visitor does at the nodes of one type, if it is to answer with their type. -/
inductive Handling where
  /-- It goes through the nodes below. -/
  | pass
  /-- It notes the node, and leaves out the nodes below. -/
  | note
  /-- It notes the node, and goes through the nodes below. -/
  | noteAndDescend
  deriving DecidableEq, Repr

/-- The handler that does so, if there has to be one. -/
def Handling.handler? : Handling → Option (Handler NodeKind)
  | pass => none
  | note => some ⟨fun _ => false, Node.kind⟩
  | noteAndDescend => some ⟨fun _ => true, Node.kind⟩

/-- A visitor that answers with the type of the node: what it does at the nodes of each type. -/
abbrev Visitor := NodeKind → Handling

/-- Visits a node. The answer is its type, if it was noted. -/
def Node.visit (visitor : Visitor) (n : Node) : Visit NodeKind :=
  n.visitWith fun kind => (visitor kind).handler?

end Conditions
