import Conditions.Proofs.Courses
import Conditions.Proofs.Similarity

/-!
# Courses of parsers

The course of a parser is put together from the courses of the parsers that it is made of, in the
way in which the parser is: parsers one behind the other follow one another, alternatives take each
other's place, and a repetition is a repeated course.
-/

namespace Conditions

namespace Parser

section
variable (store : Store) (tokens : Array Token)

/-- The course of a parser. -/
def course (p : Parser) : Course Tree :=
  fun i o calls => ∃ n a, attempt store tokens n p i = some a ∧ a.outcome = o ∧ a.calls = calls

/-- The course of a part of a run, which depends on the budget. -/
def courseOf {α : Type} (part : Nat → Int → Option (Stretch α)) : Course α :=
  fun i o calls => ∃ n s, part n i = some s ∧ s.outcome = o ∧
    Attempt.callsOfAll s.attempts = calls

/-- The course of parsers that are run one behind the other. -/
def courseInTurn (ps : List Parser) : Course (List Tree) :=
  courseOf fun n => runSequence (attempt store tokens n) ps

/-- The course of parsers that are run until one of them does not fail. -/
def courseAsChoice (ps : List Parser) : Course Tree :=
  courseOf fun n => runChoice (attempt store tokens n) ps

end

section
variable {store : Store} {tokens : Array Token}

theorem courseOf_done {α : Type} (outcome : Int → Outcome α) :
    courseOf (fun _ i => some (Stretch.done (outcome i))) =
      fun i o calls => o = outcome i ∧ calls = [] := by
  apply Course.ext
  intro i o calls
  constructor
  · rintro ⟨n, s, hs, rfl, rfl⟩
    cases hs
    exact ⟨rfl, rfl⟩
  · rintro ⟨rfl, rfl⟩
    exact ⟨0, _, rfl, rfl, rfl⟩

theorem courseOf_mapOutcome {α β : Type} (part : Nat → Int → Option (Stretch α))
    (f : Outcome α → Outcome β) :
    courseOf (fun n i => (part n i).map fun s => ⟨s.attempts, f s.outcome⟩) =
      (courseOf part).mapOutcome f := by
  apply Course.ext
  intro i o calls
  constructor
  · rintro ⟨n, s, hs, rfl, rfl⟩
    rw [Option.map_eq_some_iff] at hs
    obtain ⟨u, hu, rfl⟩ := hs
    exact ⟨u.outcome, ⟨n, u, hu, rfl, rfl⟩, rfl⟩
  · rintro ⟨-, ⟨n, u, hu, rfl, rfl⟩, rfl⟩
    exact ⟨n, ⟨u.attempts, f u.outcome⟩, Option.map_eq_some_iff.mpr ⟨u, hu, rfl⟩, rfl, rfl⟩

theorem courseOf_map {α β : Type} (part : Nat → Int → Option (Stretch α)) (f : α → β) :
    courseOf (fun n i => (part n i).map (Stretch.map f)) = (courseOf part).map f :=
  courseOf_mapOutcome part (Outcome.map f)

theorem courseOf_attempt (p : Parser) :
    courseOf (fun n i => (attempt store tokens n p i).map Stretch.single) =
      course store tokens p := by
  apply Course.ext
  intro i o calls
  constructor
  · rintro ⟨n, s, hs, rfl, rfl⟩
    rw [Option.map_eq_some_iff] at hs
    obtain ⟨a, ha, rfl⟩ := hs
    exact ⟨n, a, ha, rfl, rfl⟩
  · rintro ⟨n, a, ha, rfl, rfl⟩
    exact ⟨n, .single a, Option.map_eq_some_iff.mpr ⟨a, ha, rfl⟩, rfl, rfl⟩

theorem courseOf_single (p : Parser) (f : Outcome Tree → Outcome Tree) :
    courseOf (fun n i => (attempt store tokens n p i).map fun a => ⟨[a], f a.outcome⟩) =
      (course store tokens p).mapOutcome f := by
  rw [← courseOf_attempt, ← courseOf_mapOutcome]
  simp only [Option.map_map]
  rfl

/-- The calls of a run are those of its step, behind its own. -/
theorem course_iff {p : Parser} {i : Int} {o : Outcome Tree} {calls : List (String × Int)} :
    course store tokens p i o calls ↔
      ∃ calls', courseOf (fun n => step (attempt store tokens n) store tokens n p) i o calls' ∧
        calls = (p.label?.map fun label => (label, i)).toList ++ calls' := by
  constructor
  · rintro ⟨n, a, ha, rfl, rfl⟩
    obtain ⟨m, -, s, hs, rfl⟩ := exists_step ha
    exact ⟨_, ⟨m, s, hs, rfl, rfl⟩, Attempt.calls_eq ..⟩
  · rintro ⟨-, ⟨n, s, hs, rfl, rfl⟩, rfl⟩
    exact ⟨n + 1, ⟨p, i, s.attempts, s.outcome⟩, Option.map_eq_some_iff.mpr ⟨s, hs, rfl⟩, rfl,
      Attempt.calls_eq ..⟩

theorem course_eq_courseOf {p : Parser} {part : Nat → Int → Option (Stretch Tree)}
    (hlabel : p.label? = none)
    (hpart : ∀ n i, step (attempt store tokens n) store tokens n p i = part n i) :
    course store tokens p = courseOf part := by
  have hstep : (fun n => step (attempt store tokens n) store tokens n p) = part := by
    funext n i
    exact hpart n i
  apply Course.ext
  intro i o calls
  rw [course_iff, hstep, hlabel]
  simp

theorem course_sequence (ps : List Parser) :
    course store tokens (.sequence ps) = (courseInTurn store tokens ps).map .list :=
  (course_eq_courseOf rfl fun _ _ => rfl).trans (courseOf_map _ _)

theorem course_choice (ps : List Parser) :
    course store tokens (.choice ps) = courseAsChoice store tokens ps :=
  course_eq_courseOf rfl fun _ _ => rfl

theorem course_pair (p q : Parser) (combine : Tree → Tree → Except Refusal Tree) :
    course store tokens (.pair p q combine) =
      (courseInTurn store tokens [p, q]).mapOutcome (Outcome.refine (combinePair combine)) :=
  (course_eq_courseOf rfl fun _ _ => step_pair).trans (courseOf_mapOutcome _ _)

theorem course_transform (p : Parser) (f : Tree → Except Refusal Tree) :
    course store tokens (.transform p f) =
      (course store tokens p).mapOutcome (Outcome.refine f) :=
  (course_eq_courseOf rfl fun _ _ => step_transform).trans (courseOf_single p _)

theorem course_named (name : String) (p : Parser) :
    course store tokens (.named name p) = course store tokens p :=
  (course_eq_courseOf rfl fun _ _ => rfl).trans (courseOf_attempt p)

/-- A forward goes as the parser that has been supplied for it, or raises an error. -/
theorem course_forward (place : Nat) :
    course store tokens (.forward place) =
      match store.resolve place with
      | .ok body => course store tokens body
      | .error name => fun _ o calls =>
          o = .raised (.undefinedForward name) ∧ calls = [] := by
  rw [course_eq_courseOf rfl fun _ _ => step_forward]
  cases store.resolve place with
  | ok body => exact courseOf_attempt body
  | error name => exact courseOf_done fun _ => .raised (.undefinedForward name)

theorem course_probe (label : String) (p : Parser) :
    course store tokens (.probe label p) = (course store tokens p).called label := by
  have hstep : courseOf (fun n => step (attempt store tokens n) store tokens n (.probe label p)) =
      course store tokens p := courseOf_attempt p
  apply Course.ext
  intro i o calls
  rw [course_iff, hstep]
  rfl

theorem courseInTurn_nil : courseInTurn store tokens [] = Course.stay [] :=
  courseOf_done fun i => .matched [] i

theorem courseInTurn_cons (p : Parser) (ps : List Parser) :
    courseInTurn store tokens (p :: ps) =
      Course.andThen (course store tokens p) fun tree =>
        (courseInTurn store tokens ps).map (tree :: ·) := by
  apply Course.ext
  intro i o calls
  constructor
  · rintro ⟨n, s, hs, rfl, rfl⟩
    beta_reduce at hs
    rw [runSequence_cons, Option.bind_eq_some_iff] at hs
    obtain ⟨a, ha, hs⟩ := hs
    cases ho : a.outcome with
    | matched tree j =>
      simp only [ho, Option.map_eq_some_iff] at hs
      obtain ⟨u, hu, rfl⟩ := hs
      rw [Attempt.callsOfAll_cons]
      exact .matched ⟨n, a, ha, ho, rfl⟩ ⟨_, ⟨n, u, hu, rfl, rfl⟩, rfl⟩
    | failed =>
      simp only [ho, Option.some.injEq] at hs
      subst hs
      exact .failed ⟨n, a, ha, ho, rfl⟩
    | raised e =>
      simp only [ho, Option.some.injEq] at hs
      subst hs
      exact .raised ⟨n, a, ha, ho, rfl⟩
  · intro h
    cases h with
    | matched hp hps =>
      obtain ⟨n, a, ha, ho, rfl⟩ := hp
      obtain ⟨-, ⟨m, u, hu, rfl, rfl⟩, rfl⟩ := hps
      refine ⟨max n m, ⟨a :: u.attempts, u.outcome.map _⟩, ?_, rfl, Attempt.callsOfAll_cons ..⟩
      have hrest := runSequence_extends (attempt_extends (Nat.le_max_right n m)) _ _ _ hu
      simp only [runSequence_cons, attempt_mono (Nat.le_max_left n m) ha, Option.bind_some, ho,
        hrest, Option.map_some]
    | failed hp =>
      obtain ⟨n, a, ha, ho, rfl⟩ := hp
      exact ⟨n, ⟨[a], .failed⟩, by simp [runSequence_cons, ha, ho], rfl, rfl⟩
    | raised hp =>
      obtain ⟨n, a, ha, ho, rfl⟩ := hp
      exact ⟨n, ⟨[a], .raised _⟩, by simp [runSequence_cons, ha, ho], rfl, rfl⟩

theorem courseAsChoice_nil : courseAsChoice store tokens [] = Course.fail :=
  courseOf_done fun _ => .failed

theorem courseAsChoice_cons (p : Parser) (ps : List Parser) :
    courseAsChoice store tokens (p :: ps) =
      Course.orElse (course store tokens p) (courseAsChoice store tokens ps) := by
  apply Course.ext
  intro i o calls
  constructor
  · rintro ⟨n, s, hs, rfl, rfl⟩
    simp only [runChoice, Option.bind_eq_bind, Option.bind_eq_some_iff] at hs
    obtain ⟨a, ha, hs⟩ := hs
    cases ho : a.outcome with
    | matched tree j =>
      simp only [ho, Option.some.injEq] at hs
      subst hs
      exact .matched ⟨n, a, ha, ho, rfl⟩
    | failed =>
      simp only [ho, Option.map_eq_some_iff] at hs
      obtain ⟨u, hu, rfl⟩ := hs
      rw [Attempt.callsOfAll_cons]
      exact .failed ⟨n, a, ha, ho, rfl⟩ ⟨n, u, hu, rfl, rfl⟩
    | raised e =>
      simp only [ho, Option.some.injEq] at hs
      subst hs
      exact .raised ⟨n, a, ha, ho, rfl⟩
  · intro h
    cases h with
    | matched hp =>
      obtain ⟨n, a, ha, ho, rfl⟩ := hp
      exact ⟨n, ⟨[a], .matched _ _⟩, by simp [runChoice, ha, ho], rfl, rfl⟩
    | failed hp hps =>
      obtain ⟨n, a, ha, ho, rfl⟩ := hp
      obtain ⟨m, u, hu, rfl, rfl⟩ := hps
      refine ⟨max n m, ⟨a :: u.attempts, u.outcome⟩, ?_, rfl, Attempt.callsOfAll_cons ..⟩
      have hrest := runChoice_extends (attempt_extends (Nat.le_max_right n m)) _ _ _ hu
      simp [runChoice, attempt_mono (Nat.le_max_left n m) ha, ho, hrest]
    | raised hp =>
      obtain ⟨n, a, ha, ho, rfl⟩ := hp
      exact ⟨n, ⟨[a], .raised _⟩, by simp [runChoice, ha, ho], rfl, rfl⟩

/-- The rounds of a repetition are a repeated course. The induction is on the number of rounds. -/
theorem repeated_of_runMany {p : Parser} {n rounds : Nat} {i : Int} {s : Stretch (List Tree)}
    (hs : runMany (attempt store tokens n) p rounds i = some s) :
    Course.repeated (course store tokens p) i s.outcome (Attempt.callsOfAll s.attempts) := by
  induction rounds generalizing i s with
  | zero => cases hs
  | succ rounds ih =>
    simp only [runMany, Option.bind_eq_bind, Option.bind_eq_some_iff] at hs
    obtain ⟨a, ha, hs⟩ := hs
    cases ho : a.outcome with
    | failed =>
      simp only [ho, Option.some.injEq] at hs
      subst hs
      exact .failed ⟨n, a, ha, ho, rfl⟩
    | raised e =>
      simp only [ho, Option.some.injEq] at hs
      subst hs
      exact .raised ⟨n, a, ha, ho, rfl⟩
    | matched tree j =>
      simp only [ho] at hs
      by_cases hj : j = i
      · simp only [hj, if_true, Option.some.injEq] at hs
        subst hs hj
        exact .stays ⟨n, a, ha, ho, rfl⟩
      · simp only [hj, if_false, Option.map_eq_some_iff] at hs
        obtain ⟨u, hu, rfl⟩ := hs
        rw [Attempt.callsOfAll_cons]
        exact .again ⟨n, a, ha, ho, rfl⟩ hj (ih hu)

/-- A repeated course is that of some number of rounds. The induction is on the course. -/
theorem exists_runMany_of_repeated {p : Parser} {i : Int} {o : Outcome (List Tree)}
    {calls : List (String × Int)} (h : Course.repeated (course store tokens p) i o calls) :
    ∃ n s, runMany (attempt store tokens n) p n i = some s ∧ s.outcome = o ∧
      Attempt.callsOfAll s.attempts = calls := by
  induction h with
  | failed hp =>
    obtain ⟨n, a, ha, ho, rfl⟩ := hp
    exact ⟨n + 1, ⟨[a], .matched [] _⟩, by simp [runMany, attempt_mono (Nat.le_succ n) ha, ho],
      rfl, rfl⟩
  | stays hp =>
    obtain ⟨n, a, ha, ho, rfl⟩ := hp
    exact ⟨n + 1, ⟨[a], .matched [] _⟩, by simp [runMany, attempt_mono (Nat.le_succ n) ha, ho],
      rfl, rfl⟩
  | raised hp =>
    obtain ⟨n, a, ha, ho, rfl⟩ := hp
    exact ⟨n + 1, ⟨[a], .raised _⟩, by simp [runMany, attempt_mono (Nat.le_succ n) ha, ho],
      rfl, rfl⟩
  | again hp hne _ ih =>
    obtain ⟨n, a, ha, ho, rfl⟩ := hp
    obtain ⟨m, u, hu, rfl, rfl⟩ := ih
    -- One more round is made than behind the first match.
    refine ⟨max n m + 1, ⟨a :: u.attempts, u.outcome.map _⟩, ?_, rfl, Attempt.callsOfAll_cons ..⟩
    have hfirst := attempt_mono (Nat.le_succ_of_le (Nat.le_max_left n m)) ha
    have hrest := runMany_extends (attempt_extends (Nat.le_succ_of_le (Nat.le_max_right n m)))
      p (Nat.le_max_right n m) _ _ hu
    simp [runMany, hfirst, ho, hne, hrest]

theorem course_many (p : Parser) :
    course store tokens (.many p) = Course.map .list (Course.repeated (course store tokens p)) := by
  have hrounds : courseOf (fun n => runMany (attempt store tokens n) p n) =
      Course.repeated (course store tokens p) := by
    apply Course.ext
    intro i o calls
    constructor
    · rintro ⟨n, s, hs, rfl, rfl⟩
      exact repeated_of_runMany hs
    · exact exists_runMany_of_repeated
  rw [← hrounds]
  exact (course_eq_courseOf rfl fun _ _ => rfl).trans (courseOf_map _ _)

end

end Parser

end Conditions
