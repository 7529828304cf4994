import Conditions.Parser.Run

/-!
# Steps of parsers

What a step of a parser does, in the form in which it is used about whole runs. A pair is a sequence
of two parsers, a transformation changes the outcome of a single run, and a forward runs what it is
resolved to.
-/

namespace Conditions

/-- What a run finds at a place: the parser that has been supplied, or else the name of the forward,
which is told in the error. -/
def Store.resolve (store : Store) (place : Nat) : Except String Parser :=
  match store[place]? with
  | some ⟨_, some body⟩ => .ok body
  | some ⟨name?, none⟩ => .error (name?.getD "")
  | none => .error ""

theorem Store.resolve_eq_ok_iff {store : Store} {place : Nat} {body : Parser} :
    store.resolve place = .ok body ↔ ∃ name?, store[place]? = some ⟨name?, some body⟩ := by
  unfold resolve
  split <;> simp_all

namespace Parser

/-- The combination of the trees of two parsers that are run one behind the other. -/
def combinePair (combine : Tree → Tree → Except Refusal Tree) : List Tree → Except Refusal Tree
  | [x, y] => combine x y
  | _ => .ok .absent

section
variable {run : Parser → Int → Option Attempt} {store : Store} {tokens : Array Token}
  {rounds : Nat} {i : Int}

theorem runSequence_cons {p : Parser} {ps : List Parser} :
    runSequence run (p :: ps) i = (run p i).bind fun a =>
      match a.outcome with
      | .matched tree j =>
        (runSequence run ps j).map fun s => ⟨a :: s.attempts, s.outcome.map (tree :: ·)⟩
      | .failed => some ⟨[a], .failed⟩
      | .raised e => some ⟨[a], .raised e⟩ := by
  simp only [runSequence, Option.bind_eq_bind]
  congr 1
  funext a
  cases ho : a.outcome with
  | matched tree j =>
    simp only [Stretch.andThen, Stretch.single, ho, Option.map_map]
    rfl
  | failed | raised e => simp [Stretch.andThen, Stretch.single, ho]

theorem step_pair {p q : Parser} {combine : Tree → Tree → Except Refusal Tree} :
    step run store tokens rounds (.pair p q combine) i =
      (runSequence run [p, q] i).map (Stretch.refine (combinePair combine)) := by
  simp only [step, runSequence_cons, Option.bind_eq_bind, Option.map_bind]
  congr 1
  funext a
  cases ho : a.outcome with
  | failed | raised e => simp [Stretch.andThen, Stretch.single, ho, Stretch.refine, Outcome.refine]
  | matched x j =>
    simp only [Stretch.andThen, Stretch.single, ho, Function.comp, Option.map_bind]
    cases run q j with
    | none => rfl
    | some b =>
      cases hb : b.outcome <;>
        simp [Stretch.refine, Outcome.refine, Outcome.map, combinePair, runSequence, Stretch.done,
          hb]

theorem step_transform {p : Parser} {f : Tree → Except Refusal Tree} :
    step run store tokens rounds (.transform p f) i =
      (run p i).map fun a => ⟨[a], a.outcome.refine f⟩ :=
  rfl

theorem step_forward {place : Nat} :
    step run store tokens rounds (.forward place) i =
      match store.resolve place with
      | .ok body => (run body i).map Stretch.single
      | .error name => some (.done (.raised (.undefinedForward name))) := by
  simp only [step, Store.resolve]
  split <;> simp_all

end

theorem attempt_named {store : Store} {tokens : Array Token} {n : Nat} {name : String} {p : Parser}
    {i : Int} :
    attempt store tokens (n + 1) (.named name p) i =
      (attempt store tokens n p i).map fun a => ⟨.named name p, i, [a], a.outcome⟩ := by
  simp only [attempt, step, Option.map_map]
  rfl

section
variable {store : Store} {tokens : Array Token} {n : Nat} {p : Parser} {i : Int} {a : Attempt}

/-- A run is made by a step, whose parts have a smaller budget. -/
theorem exists_step (ha : attempt store tokens n p i = some a) :
    ∃ m < n, ∃ s, step (attempt store tokens m) store tokens m p i = some s ∧
      a = ⟨p, i, s.attempts, s.outcome⟩ := by
  cases n with
  | zero => cases ha
  | succ n =>
    simp only [attempt, Option.map_eq_some_iff] at ha
    obtain ⟨s, hs, rfl⟩ := ha
    exact ⟨n, Nat.lt_succ_self n, s, hs, rfl⟩

theorem exists_named {name : String} (ha : attempt store tokens n (.named name p) i = some a) :
    ∃ m < n, ∃ b, attempt store tokens m p i = some b ∧ a = ⟨.named name p, i, [b], b.outcome⟩ := by
  obtain ⟨m, hm, s, hs, rfl⟩ := exists_step ha
  simp only [step, Option.map_eq_some_iff] at hs
  obtain ⟨b, hb, rfl⟩ := hs
  exact ⟨m, hm, b, hb, rfl⟩

theorem exists_transform {f : Tree → Except Refusal Tree}
    (ha : attempt store tokens n (.transform p f) i = some a) :
    ∃ m < n, ∃ b, attempt store tokens m p i = some b ∧
      a = ⟨.transform p f, i, [b], b.outcome.refine f⟩ := by
  obtain ⟨m, hm, s, hs, rfl⟩ := exists_step ha
  rw [step_transform, Option.map_eq_some_iff] at hs
  obtain ⟨b, hb, rfl⟩ := hs
  exact ⟨m, hm, b, hb, rfl⟩

theorem exists_sequence {ps : List Parser}
    (ha : attempt store tokens n (.sequence ps) i = some a) :
    ∃ m < n, ∃ s, runSequence (attempt store tokens m) ps i = some s ∧
      a = ⟨.sequence ps, i, s.attempts, s.outcome.map .list⟩ := by
  obtain ⟨m, hm, s, hs, rfl⟩ := exists_step ha
  simp only [step, Option.map_eq_some_iff] at hs
  obtain ⟨u, hu, rfl⟩ := hs
  exact ⟨m, hm, u, hu, rfl⟩

theorem exists_many (ha : attempt store tokens n (.many p) i = some a) :
    ∃ m < n, ∃ s, runMany (attempt store tokens m) p m i = some s ∧
      a = ⟨.many p, i, s.attempts, s.outcome.map .list⟩ := by
  obtain ⟨m, hm, s, hs, rfl⟩ := exists_step ha
  simp only [step, Option.map_eq_some_iff] at hs
  obtain ⟨u, hu, rfl⟩ := hs
  exact ⟨m, hm, u, hu, rfl⟩

end

end Parser

end Conditions
