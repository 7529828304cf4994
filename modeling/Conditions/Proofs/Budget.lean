import Conditions.Parser.Run

/-!
# Budgets

A run that stays within its budget does not depend on it: with a larger budget the same run is made,
with the same history.
-/

namespace Conditions.Parser

/-- `run'` makes every run that `run` makes. -/
def Extends (run run' : Parser → Int → Option Attempt) : Prop :=
  ∀ p i a, run p i = some a → run' p i = some a

section
variable {run run' : Parser → Int → Option Attempt}

theorem andThen_extends {α β : Type} {next next' : α → Int → Option (Stretch β)}
    (h : ∀ value j s, next value j = some s → next' value j = some s) (s : Stretch α)
    {t : Stretch β} (ht : s.andThen next = some t) : s.andThen next' = some t := by
  unfold Stretch.andThen at ht ⊢
  cases hs : s.outcome with
  | matched value j =>
    simp only [hs, Option.map_eq_some_iff] at ht ⊢
    obtain ⟨u, hu, rfl⟩ := ht
    exact ⟨u, h _ _ _ hu, rfl⟩
  | failed => simpa [hs] using ht
  | raised e => simpa [hs] using ht

theorem runSequence_extends (h : Extends run run') :
    ∀ (ps : List Parser) (i : Int) (s : Stretch (List Tree)),
      runSequence run ps i = some s → runSequence run' ps i = some s := by
  intro ps
  induction ps with
  | nil => intro i s hs; exact hs
  | cons p ps ih =>
    intro i s hs
    simp only [runSequence, Option.bind_eq_bind, Option.bind_eq_some_iff] at hs ⊢
    obtain ⟨a, ha, hs⟩ := hs
    refine ⟨a, h _ _ _ ha, andThen_extends ?_ _ hs⟩
    intro tree j t ht
    rw [Option.map_eq_some_iff] at ht ⊢
    obtain ⟨u, hu, rfl⟩ := ht
    exact ⟨u, ih _ _ hu, rfl⟩

theorem runChoice_extends (h : Extends run run') :
    ∀ (ps : List Parser) (i : Int) (s : Stretch Tree),
      runChoice run ps i = some s → runChoice run' ps i = some s := by
  intro ps
  induction ps with
  | nil => intro i s hs; exact hs
  | cons p ps ih =>
    intro i s hs
    simp only [runChoice, Option.bind_eq_bind, Option.bind_eq_some_iff] at hs ⊢
    obtain ⟨a, ha, hs⟩ := hs
    refine ⟨a, h _ _ _ ha, ?_⟩
    cases ho : a.outcome with
    | failed =>
      simp only [ho, Option.map_eq_some_iff] at hs ⊢
      obtain ⟨u, hu, rfl⟩ := hs
      exact ⟨u, ih _ _ hu, rfl⟩
    | matched tree j => simpa [ho] using hs
    | raised e => simpa [ho] using hs

theorem runMany_extends (h : Extends run run') (p : Parser) :
    ∀ {rounds rounds' : Nat}, rounds ≤ rounds' → ∀ (i : Int) (s : Stretch (List Tree)),
      runMany run p rounds i = some s → runMany run' p rounds' i = some s := by
  intro rounds
  induction rounds with
  | zero => intro rounds' _ i s hs; simp [runMany] at hs
  | succ rounds ih =>
    intro rounds' hle i s hs
    obtain ⟨k, rfl⟩ := Nat.exists_eq_succ_of_ne_zero (by omega : rounds' ≠ 0)
    simp only [runMany, Option.bind_eq_bind, Option.bind_eq_some_iff] at hs ⊢
    obtain ⟨a, ha, hs⟩ := hs
    refine ⟨a, h _ _ _ ha, ?_⟩
    cases ho : a.outcome with
    | failed => simpa [ho] using hs
    | raised e => simpa [ho] using hs
    | matched tree j =>
      simp only [ho] at hs ⊢
      by_cases hj : j = i
      · simpa [hj] using hs
      · simp only [hj, if_false, Option.map_eq_some_iff] at hs ⊢
        obtain ⟨u, hu, rfl⟩ := hs
        exact ⟨u, ih (by omega) _ _ hu, rfl⟩

/-- A step that is given more runs, and more rounds, does what it did with fewer. -/
theorem step_extends (h : Extends run run') (store : Store) (tokens : Array Token)
    {rounds rounds' : Nat} (hle : rounds ≤ rounds') (p : Parser) (i : Int) (s : Stretch Tree)
    (hs : step run store tokens rounds p i = some s) :
    step run' store tokens rounds' p i = some s := by
  cases p with
  | empty value => exact hs
  | elem kind => exact hs
  | jump distance value => exact hs
  | pair first second combine =>
    simp only [step, Option.bind_eq_bind, Option.bind_eq_some_iff] at hs ⊢
    obtain ⟨a, ha, hs⟩ := hs
    refine ⟨a, h _ _ _ ha, andThen_extends ?_ _ hs⟩
    intro tree j t ht
    rw [Option.bind_eq_some_iff] at ht ⊢
    obtain ⟨b, hb, ht⟩ := ht
    exact ⟨b, h _ _ _ hb, ht⟩
  | sequence parts =>
    simp only [step, Option.map_eq_some_iff] at hs ⊢
    obtain ⟨u, hu, rfl⟩ := hs
    exact ⟨u, runSequence_extends h _ _ _ hu, rfl⟩
  | many inner =>
    simp only [step, Option.map_eq_some_iff] at hs ⊢
    obtain ⟨u, hu, rfl⟩ := hs
    exact ⟨u, runMany_extends h _ hle _ _ hu, rfl⟩
  | choice alternatives => exact runChoice_extends h _ _ _ hs
  | transform inner f =>
    simp only [step, Option.map_eq_some_iff] at hs ⊢
    obtain ⟨a, ha, rfl⟩ := hs
    exact ⟨a, h _ _ _ ha, rfl⟩
  | forward place =>
    simp only [step] at hs ⊢
    split at hs
    · simp only [Option.map_eq_some_iff] at hs ⊢
      obtain ⟨a, ha, rfl⟩ := hs
      exact ⟨a, h _ _ _ ha, rfl⟩
    · exact hs
    · exact hs
  | probe label inner =>
    simp only [step, Option.map_eq_some_iff] at hs ⊢
    obtain ⟨a, ha, rfl⟩ := hs
    exact ⟨a, h _ _ _ ha, rfl⟩
  | named name inner =>
    simp only [step, Option.map_eq_some_iff] at hs ⊢
    obtain ⟨a, ha, rfl⟩ := hs
    exact ⟨a, h _ _ _ ha, rfl⟩

end

variable {store : Store} {tokens : Array Token}

theorem attempt_extends {n m : Nat} (hle : n ≤ m) :
    Extends (attempt store tokens n) (attempt store tokens m) := by
  induction n generalizing m with
  | zero => intro p i a ha; simp [attempt] at ha
  | succ n ih =>
    intro p i a ha
    obtain ⟨k, rfl⟩ := Nat.exists_eq_succ_of_ne_zero (by omega : m ≠ 0)
    simp only [attempt, Option.map_eq_some_iff] at ha ⊢
    obtain ⟨s, hs, rfl⟩ := ha
    exact ⟨s, step_extends (ih (by omega)) _ _ (by omega) _ _ _ hs, rfl⟩

/-- A run within a budget is the run within every larger one. -/
theorem attempt_mono {n m : Nat} (hle : n ≤ m) {p : Parser} {i : Int} {a : Attempt}
    (ha : attempt store tokens n p i = some a) : attempt store tokens m p i = some a :=
  attempt_extends hle p i a ha

end Conditions.Parser
