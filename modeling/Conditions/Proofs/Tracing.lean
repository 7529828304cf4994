import Conditions.Parser.Journal
import Conditions.Proofs.Brackets
import Conditions.Proofs.Similarity

/-!
# Tracing

A run that keeps a journal makes the run that is recorded as an attempt, traced or not: it ends
alike, and notes the calls and the trace that are taken from the attempt. Names make no difference
to how a run ends, nor to its calls. The trace of a run that returns is well bracketed, and that of
a run that is ended by an error lacks just the ends of the runs that the error has ended.
-/

namespace Conditions

namespace Journal

open Attempt

/-- The journal behind runs that follow one another. -/
def after (traced : Bool) (journal : Journal) (attempts : List Attempt) : Journal where
  calls := journal.calls ++ callsOfAll attempts
  log := journal.log ++ if traced then traceOfAll attempts else []

variable {traced : Bool} {journal : Journal}

theorem after_nil : journal.after traced [] = journal := by
  cases traced <;> simp [after, callsOfAll, callsOfAllOnto, traceOfAll, traceOfAllOnto]

theorem after_cons (a : Attempt) (rest : List Attempt) :
    journal.after traced (a :: rest) = (journal.after traced [a]).after traced rest := by
  have hcalls : callsOfAll [a] = a.calls := rfl
  have htrace : traceOfAll [a] = a.trace := rfl
  cases traced <;>
    simp [after, callsOfAll_cons a rest, traceOfAll_cons a rest, hcalls, htrace]

theorem after_probe (label : String) (inner : Parser) (i : Int) (a : Attempt) :
    (journal.call label i).after traced [a] =
      journal.after traced [⟨.probe label inner, i, [a], a.outcome⟩] := by
  have hcalls : callsOfAll [⟨.probe label inner, i, [a], a.outcome⟩] =
      (label, i) :: callsOfAll [a] := rfl
  simp only [after, call, hcalls, List.append_assoc, List.singleton_append]
  rfl

theorem after_named (name : String) (inner : Parser) (i : Int) (a : Attempt) :
    ((journal.write [.trying name i]).after true [a]).write (a.outcome.closing name i) =
      journal.after true [⟨.named name inner, i, [a], a.outcome⟩] := by
  have htrace : traceOfAll [⟨.named name inner, i, [a], a.outcome⟩] =
      .trying name i :: traceOfAll [a] ++ a.outcome.closing name i := trace_named ..
  simp only [after, write, htrace, if_true, List.append_assoc, List.cons_append]
  rfl

end Journal

namespace Parser

section
variable {traced : Bool} {run : Parser → Int → Option Attempt}
  {run' : Parser → Int → Journaling (Outcome Tree)}

/-- `run'` makes the runs that `run` makes, and keeps a journal of them. -/
def KeepsJournal (traced : Bool) (run : Parser → Int → Option Attempt)
    (run' : Parser → Int → Journaling (Outcome Tree)) : Prop :=
  ∀ p i (journal : Journal), (run' p i).run journal =
    (run p i).map fun a => (a.outcome, journal.after traced [a])

theorem journalSequence_run (h : KeepsJournal traced run run') (ps : List Parser) (i : Int)
    (journal : Journal) :
    (journalSequence run' ps i).run journal =
      (runSequence run ps i).map fun s => (s.outcome, journal.after traced s.attempts) := by
  induction ps generalizing i journal with
  | nil => simp [journalSequence, runSequence, Stretch.done, Journal.after_nil]
  | cons p ps ih =>
    rw [runSequence_cons, journalSequence, StateT.run_bind, h p i journal]
    cases run p i with
    | none => rfl
    | some a =>
      cases ho : a.outcome with
      | failed | raised e => simp [ho]
      | matched tree j =>
        simp only [ho, Option.map_some, Option.bind_some, Option.map_map, Option.bind_eq_bind]
        rw [StateT.run_bind, ih]
        cases runSequence run ps j with
        | none => rfl
        | some s => exact congrArg (fun journal => some (_, journal)) (Journal.after_cons a _).symm

theorem journalChoice_run (h : KeepsJournal traced run run') (ps : List Parser) (i : Int)
    (journal : Journal) :
    (journalChoice run' ps i).run journal =
      (runChoice run ps i).map fun s => (s.outcome, journal.after traced s.attempts) := by
  induction ps generalizing journal with
  | nil => simp [journalChoice, runChoice, Stretch.done, Journal.after_nil]
  | cons p ps ih =>
    rw [runChoice, journalChoice, StateT.run_bind, h p i journal]
    cases run p i with
    | none => rfl
    | some a =>
      cases ho : a.outcome with
      | matched tree j | raised e => simp [ho]
      | failed =>
        simp only [ho, Option.map_some, Option.bind_some, Option.map_map, Option.bind_eq_bind]
        rw [ih]
        cases runChoice run ps i with
        | none => rfl
        | some s => exact congrArg (fun journal => some (_, journal)) (Journal.after_cons a _).symm

theorem journalMany_run (h : KeepsJournal traced run run') (p : Parser) (rounds : Nat) (i : Int)
    (journal : Journal) :
    (journalMany run' p rounds i).run journal =
      (runMany run p rounds i).map fun s => (s.outcome, journal.after traced s.attempts) := by
  induction rounds generalizing i journal with
  | zero => rfl
  | succ rounds ih =>
    rw [runMany, journalMany, StateT.run_bind, h p i journal]
    cases run p i with
    | none => rfl
    | some a =>
      cases ho : a.outcome with
      | failed | raised e => simp [ho]
      | matched tree j =>
        simp only [ho, Option.map_some, Option.bind_some, Option.bind_eq_bind]
        by_cases hj : j = i
        · simp [hj]
        · simp only [hj, if_false, Option.map_map]
          rw [StateT.run_bind, ih]
          cases runMany run p rounds j with
          | none => rfl
          | some s =>
            exact congrArg (fun journal => some (_, journal)) (Journal.after_cons a _).symm

/-- A step of a parser without a label and without a name notes just what is noted on its behalf. -/
theorem journalStep_run (h : KeepsJournal traced run run') (store : Store) (tokens : Array Token)
    (rounds : Nat) {p : Parser} (hlabel : p.label? = none) (hname : p.name? = none) (i : Int)
    (journal : Journal) :
    (journalStep run' traced store tokens rounds p i).run journal =
      (step run store tokens rounds p i).map fun s =>
        (s.outcome, journal.after traced s.attempts) := by
  cases p with
  | probe label inner => cases hlabel
  | named name inner => cases hname
  | empty value | jump distance value =>
    simp [journalStep, step, Stretch.done, Journal.after_nil]
  | elem kind =>
    simp only [journalStep, step]
    cases tokenAt? tokens i <;> simp [Stretch.done, Journal.after_nil]
  | pair first second combine =>
    rw [journalStep, step_pair, StateT.run_bind, h first i journal, runSequence_cons]
    cases run first i with
    | none => rfl
    | some a =>
      cases ho : a.outcome with
      | failed | raised e => simp [ho, Stretch.refine, Outcome.refine]
      | matched x j =>
        simp only [ho, Option.map_some, Option.bind_some, Option.map_map, Option.bind_eq_bind]
        rw [StateT.run_bind, h second j, runSequence_cons]
        cases run second j with
        | none => rfl
        | some b =>
          have hjournal : journal.after traced [a, b] =
              (journal.after traced [a]).after traced [b] := Journal.after_cons a [b]
          cases hb : b.outcome <;>
            simp [hb, hjournal, runSequence, Stretch.done, Stretch.refine, Outcome.refine,
              Outcome.map, combinePair]
  | sequence parts =>
    rw [journalStep, step, StateT.run_bind, journalSequence_run h]
    cases runSequence run parts i <;> rfl
  | many inner =>
    rw [journalStep, step, StateT.run_bind, journalMany_run h]
    cases runMany run inner rounds i <;> rfl
  | choice alternatives => exact journalChoice_run h alternatives i journal
  | transform inner f =>
    rw [journalStep, step_transform, StateT.run_bind, h inner i journal]
    cases run inner i <;> rfl
  | forward place =>
    rcases hplace : store[place]? with _ | ⟨name?, _ | body⟩
    · simp [journalStep, step, hplace, Stretch.done, Journal.after_nil]
    · simp [journalStep, step, hplace, Stretch.done, Journal.after_nil]
    · simp only [journalStep, step, hplace, h body i journal, Option.map_map]
      rfl

end

/-- A run with a journal is the run that is recorded as an attempt, and exceeds its budget where
that one does. It notes the calls of the attempt, and its trace if it is traced. -/
theorem runWithJournal_run (traced : Bool) (store : Store) (tokens : Array Token) (n : Nat)
    (p : Parser) (i : Int) (journal : Journal) :
    (runWithJournal traced store tokens n p i).run journal =
      (attempt store tokens n p i).map fun a => (a.outcome, journal.after traced [a]) := by
  induction n generalizing p i journal with
  | zero => rfl
  | succ n ih =>
    have h : KeepsJournal traced (attempt store tokens n) (runWithJournal traced store tokens n) :=
      ih
    rw [runWithJournal, attempt, Option.map_map]
    cases p with
    | probe label inner =>
      simp only [journalStep, StateT.run_bind, StateT.run_modify, Option.pure_def,
        Option.bind_eq_bind, Option.bind_some]
      rw [h inner i, step, Option.map_map]
      congr 1
      funext a
      exact congrArg (fun journal => (_, journal)) (Journal.after_probe ..)
    | named name inner =>
      cases traced with
      | false =>
        simp only [journalStep, Bool.false_eq_true, if_false]
        rw [h inner i, step, Option.map_map]
        rfl
      | true =>
        simp only [journalStep, if_true, StateT.run_bind, StateT.run_modify, Option.pure_def,
          Option.bind_eq_bind, Option.bind_some]
        rw [h inner i, step, Option.map_map]
        cases attempt store tokens n inner i with
        | none => rfl
        | some a =>
          exact congrArg (fun journal => some (_, journal)) (Journal.after_named ..)
    | _ => exact journalStep_run h store tokens n rfl rfl i journal

/-- A run, traced or not, ends with the outcome, and has then noted what the journal holds. -/
def Journals (traced : Bool) (store : Store) (tokens : Array Token) (p : Parser) (i : Int)
    (o : Outcome Tree) (journal : Journal) : Prop :=
  ∃ n, (runWithJournal traced store tokens n p i).run .start = some (o, journal)

section
variable {traced : Bool} {store : Store} {tokens : Array Token} {p : Parser} {i : Int}

theorem journals_iff {o : Outcome Tree} {journal : Journal} :
    Journals traced store tokens p i o journal ↔
      ∃ n a, attempt store tokens n p i = some a ∧ a.outcome = o ∧
        journal = ⟨a.calls, if traced then a.trace else []⟩ := by
  simp only [Journals, runWithJournal_run, Option.map_eq_some_iff, Prod.mk.injEq]
  constructor
  · rintro ⟨n, a, ha, ho, rfl⟩
    exact ⟨n, a, ha, ho, rfl⟩
  · rintro ⟨n, a, ha, ho, rfl⟩
    exact ⟨n, a, ha, ho, rfl⟩

/-- The journal of a run holds the calls that are made in any run of a similar parser. -/
theorem Journals.similar {traced' : Bool} {store' : Store} {p' : Parser} {o : Outcome Tree}
    {journal : Journal} (h : Journals traced store tokens p i o journal)
    (hstore : store.Similar Eq store') (hp : Similar Eq p p') :
    ∃ journal', Journals traced' store' tokens p' i o journal' ∧
      journal'.calls = journal.calls := by
  obtain ⟨n, a, ha, rfl, rfl⟩ := journals_iff.mp h
  obtain ⟨m, a', ha', ho, hcalls⟩ := attempt_of_similar hstore hp ha
  exact ⟨_, journals_iff.mpr ⟨m, a', ha', ho, rfl⟩, hcalls⟩

/-- A match never ends before it begins, also where it is that of a run made on the way. -/
theorem index_le_of_mem_namedRuns (hstore : store.jumpless) (hp : p.jumpless) {n : Nat}
    {a b : Attempt} (ha : attempt store tokens n p i = some a) (hb : b ∈ a.namedRuns)
    {tree : Tree} {j : Int} (hj : b.outcome = .matched tree j) : b.index ≤ j := by
  obtain ⟨-, rfl | hwithin⟩ := Attempt.mem_runsOf_iff.mp hb
  · have hown := ((eq_iff_of_attempt ha).mp rfl).1
    have hsame : b.parser = p := ((eq_iff_of_attempt ha).mp rfl).2.1
    exact (matchesOnward_attempt hstore n (hsame ▸ hp) _ b tree j hown hj).le
  · have hown := attempt_of_within ha hwithin
    exact (matchesOnward_attempt hstore n ((reaches_of_within ha hwithin).jumpless hstore hp)
      _ b tree j hown hj).le

end

/-- Tracing is faithful, and does no harm. Whether a run is traced, and which names the parsers
have, is of no influence on how it ends, nor on the calls that it makes. The log of a traced run
that returns is well bracketed: every run of a named parser is opened and closed by entries of its
own, as a match, which never ends before it begins, or as a failure. The log of a traced run that an
error ends begins such a log, in which only the runs are left open that were active at the error,
the outermost first. -/
theorem tracing_faithful (store : Store) (tokens : Array Token) (p : Parser) (i : Int) :
    (∀ traced traced' store' p', store.Similar Eq store' → Similar Eq p p' → ∀ o calls,
      (∃ journal, Journals traced store tokens p i o journal ∧ journal.calls = calls) ↔
        ∃ journal, Journals traced' store' tokens p' i o journal ∧ journal.calls = calls) ∧
    ∀ o journal, Journals true store tokens p i o journal →
      ∃ n a, attempt store tokens n p i = some a ∧ a.outcome = o ∧ a.calls = journal.calls ∧
        (¬ o.isRaised → Bracketed a.namedRuns journal.log) ∧
        (o.isRaised → Interrupted a.namedRuns a.active journal.log ∧
          (a.active.Pairwise fun b c => c.Within b) ∧
          ∃ runs, Bracketed runs (journal.log ++ a.active.reverse.flatMap Attempt.givenUp)) ∧
        (store.jumpless → p.jumpless →
          ∀ b ∈ a.namedRuns, ∀ tree j, b.outcome = .matched tree j → b.index ≤ j) := by
  constructor
  · intro traced traced' store' p' hstore hp o calls
    have hp' : Similar Eq p' p := hp.symm fun _ _ _ _ => Eq.symm
    constructor
    · rintro ⟨journal, h, rfl⟩
      exact h.similar hstore hp
    · rintro ⟨journal, h, rfl⟩
      exact h.similar (hstore.symm fun _ _ => eq_comm) hp'
  · intro o journal h
    obtain ⟨n, a, ha, rfl, rfl⟩ := journals_iff.mp h
    have haccount := accounted ha
    refine ⟨n, a, ha, rfl, rfl, fun ho => ?_, fun _ => ?_, fun hstore hp b hb tree j hj => ?_⟩
    · exact (haccount.returned ho ▸ haccount.interrupted).closed
    · exact ⟨haccount.interrupted, haccount.chain, haccount.interrupted.completed⟩
    · exact index_le_of_mem_namedRuns hstore hp ha hb hj

theorem tracing_faithful_interrupted :
    let tokens : Array Token := #[⟨.leftParen, "(", .absent, none⟩]
    let store : Store := [⟨some "rest", none⟩]
    let word : Parser := .probe "word" (.elem .and)
    let p : Parser := .named "outer" (.choice [.named "word" word, .named "rest" (.forward 0)])
    let p' : Parser := .choice [word, .named "other" (.named "rest" (.forward 0))]
    let o : Outcome Tree := .raised (.undefinedForward "rest")
    let journal : Journal := ⟨[("word", 0)],
      [.trying "outer" 0, .trying "word" 0, .failed "word" 0, .trying "rest" 0]⟩
    store.Similar Eq store ∧ Similar Eq p p' ∧ Journals true store tokens p 0 o journal ∧
      (∃ journal', Journals false store tokens p' 0 o journal' ∧
        journal'.calls = [("word", 0)]) ∧
      ∃ n a, attempt store tokens n p 0 = some a ∧
        Interrupted a.namedRuns a.active journal.log ∧
        ∃ runs, Bracketed runs (journal.log ++ a.active.reverse.flatMap Attempt.givenUp) := by
  intro tokens store word p p' o journal
  have hstore : store.Similar Eq store := .refl store
  have hp : Similar Eq p p' := .namedLeft (.choice (.cons (.namedLeft (.refl word))
    (.cons (.namedRight (.refl (.named "rest" (.forward 0)))) .nil)))
  have hjournal : Journals true store tokens p 0 o journal := ⟨8, rfl⟩
  obtain ⟨hharmless, hfaithful⟩ := tracing_faithful store tokens p 0
  obtain ⟨n, a, ha, -, -, -, hraised, -⟩ := hfaithful o journal hjournal
  obtain ⟨hinterrupted, -, hbegins⟩ := hraised rfl
  have hcalls := (hharmless true false store p' hstore hp o [("word", 0)]).mp
    ⟨journal, hjournal, rfl⟩
  exact ⟨hstore, hp, hjournal, hcalls, n, a, ha, hinterrupted, hbegins⟩

end Parser

end Conditions
