import Conditions.Parser.Basic

/-!
# Running parsers

A run of a parser at an index is recorded as an attempt: the parser, the index, the attempts that
were made on its behalf, in order, and the outcome. An attempt is thus the whole history of a run.

Parsers may run forever, since forwards allow rules without end. The depth of a run, and the number
of rounds of a repetition, are therefore bounded by a budget. A run that stays within its budget does
not depend on it.
-/

namespace Conditions

/-- An error that ends a run. -/
inductive RunError where
  /-- No parser has been supplied for the forward with this name. -/
  | undefinedForward (name : String)
  /-- A tree was refused. -/
  | refused (e : Refusal)

/-- The words for an error that ends a run. -/
def RunError.message : RunError → String
  | undefinedForward name => s!"forward parser {name} used before define()"
  | refused e => e.message

/-- How a run ends. -/
inductive Outcome (α : Type) where
  /-- A match, with its value and the index behind it. -/
  | matched (value : α) (next : Int)
  /-- No match. -/
  | failed
  /-- An error. -/
  | raised (e : RunError)

/-- The outcome with its value put through a function. -/
def Outcome.map {α β : Type} (f : α → β) : Outcome α → Outcome β
  | matched value next => matched (f value) next
  | failed => failed
  | raised e => raised e

/-- The outcome with its value put through a function, which may refuse it. -/
def Outcome.refine {α β : Type} (f : α → Except Refusal β) : Outcome α → Outcome β
  | matched value next =>
    match f value with
    | .ok value => matched value next
    | .error e => raised (.refused e)
  | failed => failed
  | raised e => raised e

/-- A function that refuses nothing changes the value, and nothing else. -/
theorem Outcome.refine_eq_map {α β : Type} {f : α → Except Refusal β} {g : α → β}
    (h : ∀ x, f x = .ok (g x)) (o : Outcome α) : o.refine f = o.map g := by
  cases o <;> simp [refine, map, h]

/-- The description of an outcome. -/
def Outcome.describe : Outcome Tree → Except UnwritableNumber String
  | matched tree next => do
    let tree ← tree.describe
    let next ← integerText next
    return s!"Success(tree={tree}, index={next})"
  | failed => .ok "FAILURE"
  | raised e => .ok e.message

/-- A run of a parser at an index. -/
structure Attempt where
  parser : Parser
  index : Int
  /-- The runs made on behalf of this one, in order. -/
  nested : List Attempt
  outcome : Outcome Tree

/-- A part of a run: the attempts made in it, in order, and how it ended. -/
structure Stretch (α : Type) where
  attempts : List Attempt
  outcome : Outcome α

namespace Stretch

/-- A part of a run in which nothing is attempted. -/
def done {α : Type} (outcome : Outcome α) : Stretch α :=
  ⟨[], outcome⟩

/-- The part of a run that is a single attempt. -/
def single (a : Attempt) : Stretch Tree :=
  ⟨[a], a.outcome⟩

/-- The part with its value put through a function. -/
def map {α β : Type} (f : α → β) (s : Stretch α) : Stretch β :=
  ⟨s.attempts, s.outcome.map f⟩

/-- The part with its value put through a function, which may refuse it. -/
def refine {α β : Type} (f : α → Except Refusal β) (s : Stretch α) : Stretch β :=
  ⟨s.attempts, s.outcome.refine f⟩

/-- The part followed by another one, which is given the value and the index of the match. -/
def andThen {α β : Type} (s : Stretch α) (next : α → Int → Option (Stretch β)) :
    Option (Stretch β) :=
  match s.outcome with
  | .matched value index => (next value index).map fun t => ⟨s.attempts ++ t.attempts, t.outcome⟩
  | .failed => some ⟨s.attempts, .failed⟩
  | .raised e => some ⟨s.attempts, .raised e⟩

end Stretch

/-- The token at an index, if there is one. Indices below zero are out of range. -/
def tokenAt? (tokens : Array Token) (i : Int) : Option Token :=
  if i < 0 then none else tokens[i.toNat]?

namespace Parser

variable (run : Parser → Int → Option Attempt)

/-- Runs parsers one behind the other. -/
def runSequence : List Parser → Int → Option (Stretch (List Tree))
  | [], i => some (.done (.matched [] i))
  | p :: ps, i => do
    let a ← run p i
    (Stretch.single a).andThen fun tree j => (runSequence ps j).map (Stretch.map (tree :: ·))

/-- Runs parsers at one index until one of them does not fail. -/
def runChoice : List Parser → Int → Option (Stretch Tree)
  | [], _ => some (.done .failed)
  | p :: ps, i => do
    let a ← run p i
    match a.outcome with
    | .failed => (runChoice ps i).map fun s => ⟨a :: s.attempts, s.outcome⟩
    | outcome => some ⟨[a], outcome⟩

/-- Runs a parser again and again, until it fails or stays where it is. The last run counts for
nothing. There are at most `rounds` runs. -/
def runMany (p : Parser) : (rounds : Nat) → Int → Option (Stretch (List Tree))
  | 0, _ => none
  | rounds + 1, i => do
    let a ← run p i
    match a.outcome with
    | .failed => some ⟨[a], .matched [] i⟩
    | .raised e => some ⟨[a], .raised e⟩
    | .matched tree j =>
      if j = i then some ⟨[a], .matched [] i⟩
      else (runMany p rounds j).map fun s => ⟨a :: s.attempts, s.outcome.map (tree :: ·)⟩

/-- What a parser does at an index, where `run` runs the parsers that it is made of. -/
def step (store : Store) (tokens : Array Token) (rounds : Nat) (p : Parser) (i : Int) :
    Option (Stretch Tree) :=
  match p with
  | empty value => some (.done (.matched value i))
  | elem kind =>
    match tokenAt? tokens i with
    | some t => some (.done (if t.kind = kind then .matched (.token t) (i + 1) else .failed))
    | none => some (.done .failed)
  | pair first second combine => do
    let a ← run first i
    (Stretch.single a).andThen fun s j => do
      let b ← run second j
      some ((Stretch.single b).refine (combine s))
  | sequence parts => (runSequence run parts i).map (Stretch.map .list)
  | many inner => (runMany run inner rounds i).map (Stretch.map .list)
  | choice alternatives => runChoice run alternatives i
  | transform inner f => (run inner i).map fun a => (Stretch.single a).refine f
  | forward place =>
    match store[place]? with
    | some ⟨_, some body⟩ => (run body i).map Stretch.single
    | some ⟨name?, none⟩ => some (.done (.raised (.undefinedForward (name?.getD ""))))
    | none => some (.done (.raised (.undefinedForward "")))
  | probe _ inner => (run inner i).map Stretch.single
  | jump distance value => some (.done (.matched value (i + distance)))
  | named _ inner => (run inner i).map Stretch.single

/-- Runs a parser at an index, within the given budget. -/
def attempt (store : Store) (tokens : Array Token) : (budget : Nat) → Parser → Int → Option Attempt
  | 0, _, _ => none
  | budget + 1, p, i =>
    (p.step (attempt store tokens budget) store tokens budget i).map fun s =>
      ⟨p, i, s.attempts, s.outcome⟩

/-- The budget of runs of which nothing is known. It exceeds what the memory of a machine can hold,
so that only a run without end uses it up. -/
def ampleBudget : Nat := 4611686018427387904

/-- Runs a parser at an index. -/
def runAt (store : Store) (tokens : Array Token) (p : Parser) (i : Int) : Option Attempt :=
  p.attempt store tokens ampleBudget i

end Parser

end Conditions
