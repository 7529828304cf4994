import Conditions.Parser.Trace
import Conditions.Proofs.Indices
import Conditions.Proofs.Steps

/-!
# Brackets

The runs of named parsers in a run, and the trace as an account of them. A run that returns leaves a
trace in which every run of a named parser is opened and closed by an entry of its own, with the
entries of the runs it makes in between. An error ends the run that raises it and every run that
encloses this one, and no other. These are opened and not closed, each within the one before it.
-/

namespace Conditions

/-- An error has ended the run. -/
def Outcome.isRaised {α : Type} : Outcome α → Bool
  | raised _ => true
  | _ => false

/-- The parser has a name. -/
def Parser.isNamed (p : Parser) : Bool :=
  p.name?.isSome

namespace Attempt

/-- The runs of named parsers in a run, itself included, in the order in which they begin. -/
def namedRuns (a : Attempt) : List Attempt :=
  a.runsOf Parser.isNamed

/-- The runs of named parsers that an error has ended, among runs that follow one another. -/
def activeOfAll (attempts : List Attempt) : List Attempt :=
  (runsOfAll Parser.isNamed attempts).filter (·.outcome.isRaised)

/-- The runs of named parsers that an error has ended: those that were active when it was raised,
the outermost first. -/
def active (a : Attempt) : List Attempt :=
  a.namedRuns.filter (·.outcome.isRaised)

/-- The entry that would close the run of a named parser that is given up. -/
def givenUp : Attempt → List TraceEntry
  | ⟨.named name _, index, _, _⟩ => [.failed name index]
  | _ => []

end Attempt

/-- The log opens and closes each of the runs, all of which are those of named parsers and have
returned: a match is closed as such, with the index behind it, and a failure as such. What is logged
in between is an account of runs again. -/
inductive Bracketed : List Attempt → List TraceEntry → Prop where
  | nil : Bracketed [] []
  | matched {name : String} {p : Parser} {i j : Int} {tree : Tree} {nested runs rest : List Attempt}
      {log later : List TraceEntry} :
      Bracketed runs log → Bracketed rest later →
      Bracketed (⟨.named name p, i, nested, .matched tree j⟩ :: runs ++ rest)
        (.trying name i :: log ++ .matched name i j :: later)
  | failed {name : String} {p : Parser} {i : Int} {nested runs rest : List Attempt}
      {log later : List TraceEntry} :
      Bracketed runs log → Bracketed rest later →
      Bracketed (⟨.named name p, i, nested, .failed⟩ :: runs ++ rest)
        (.trying name i :: log ++ .failed name i :: later)

/-- The log opens each of the runs and closes all but those in the second list, which an error has
ended. -/
inductive Interrupted : List Attempt → List Attempt → List TraceEntry → Prop where
  | bracketed {runs : List Attempt} {log : List TraceEntry} :
      Bracketed runs log → Interrupted runs [] log
  | opening {name : String} {p : Parser} {i : Int} {e : RunError}
      {nested before runs active : List Attempt} {log later : List TraceEntry} :
      Bracketed before log → Interrupted runs active later →
      Interrupted (before ++ ⟨.named name p, i, nested, .raised e⟩ :: runs)
        (⟨.named name p, i, nested, .raised e⟩ :: active) (log ++ .trying name i :: later)

theorem Bracketed.append {runs runs' : List Attempt} {log log' : List TraceEntry}
    (h : Bracketed runs log) (h' : Bracketed runs' log') :
    Bracketed (runs ++ runs') (log ++ log') := by
  induction h with
  | nil => exact h'
  | matched hruns _ _ ih =>
    simp only [List.cons_append, List.append_assoc]
    exact .matched hruns ih
  | failed hruns _ _ ih =>
    simp only [List.cons_append, List.append_assoc]
    exact .failed hruns ih

/-- The entries of a run that has returned enclose those of the runs it has made. -/
theorem Bracketed.enclose {name : String} {p : Parser} {i : Int} {nested runs : List Attempt}
    {o : Outcome Tree} {log : List TraceEntry} (ho : ¬ o.isRaised) (h : Bracketed runs log) :
    Bracketed (⟨.named name p, i, nested, o⟩ :: runs)
      (.trying name i :: log ++ o.closing name i) := by
  have happend : runs = runs ++ [] := (List.append_nil runs).symm
  rw [happend]
  cases o with
  | matched tree j => exact .matched h .nil
  | failed => exact .failed h .nil
  | raised e => exact absurd rfl ho

namespace Interrupted

variable {before runs active : List Attempt} {log later : List TraceEntry}

theorem prepend (h : Bracketed before log) (h' : Interrupted runs active later) :
    Interrupted (before ++ runs) active (log ++ later) := by
  cases h' with
  | bracketed hruns => exact .bracketed (h.append hruns)
  | opening hfirst hruns =>
    rw [← List.append_assoc, ← List.append_assoc]
    exact .opening (h.append hfirst) hruns

/-- A log without a run left open is well bracketed. -/
theorem closed (h : Interrupted runs [] log) : Bracketed runs log := by
  cases h
  assumption

/-- A log with runs left open begins a well-bracketed one, in which they are closed from the
innermost to the outermost. -/
theorem completed (h : Interrupted runs active log) :
    ∃ runs', Bracketed runs' (log ++ active.reverse.flatMap Attempt.givenUp) := by
  induction h with
  | @bracketed runs log hruns => exact ⟨runs, by simpa using hruns⟩
  | @opening name p i e nested before runs active log later hbefore _ ih =>
    obtain ⟨runs', hruns⟩ := ih
    have hown : Bracketed (⟨.named name p, i, nested, .failed⟩ :: runs') _ :=
      hruns.enclose Bool.false_ne_true
    exact ⟨_, by simpa [Attempt.givenUp, Outcome.closing] using hbefore.append hown⟩

end Interrupted

/-! ### Errors -/

/-- An error in an attempt ends this part of a run: no attempt follows, and the part ends with an
error. -/
structure Stretch.ErrorsEnd {α : Type} (s : Stretch α) : Prop where
  last : s.attempts.Pairwise fun b _ => ¬ b.outcome.isRaised
  raised : ∀ b ∈ s.attempts, b.outcome.isRaised → s.outcome.isRaised

namespace Stretch.ErrorsEnd

variable {α β : Type}

theorem done (o : Outcome α) : ErrorsEnd (Stretch.done o) :=
  ⟨.nil, fun _ hb => absurd hb List.not_mem_nil⟩

theorem single {a : Attempt} {o : Outcome α} (h : a.outcome.isRaised → o.isRaised) :
    ErrorsEnd ⟨[a], o⟩ where
  last := List.pairwise_singleton ..
  raised b hb := by
    rw [List.mem_singleton] at hb
    subst hb
    exact h

theorem cons {a : Attempt} (ha : ¬ a.outcome.isRaised) {s : Stretch α} (hs : s.ErrorsEnd)
    {o : Outcome β} (ho : s.outcome.isRaised → o.isRaised) : ErrorsEnd ⟨a :: s.attempts, o⟩ where
  last := List.pairwise_cons.mpr ⟨fun _ _ => ha, hs.last⟩
  raised b hb hraised := by
    rcases List.mem_cons.mp hb with rfl | hb
    · exact absurd hraised ha
    · exact ho (hs.raised b hb hraised)

end Stretch.ErrorsEnd

@[simp]
theorem Outcome.isRaised_map {α β : Type} (f : α → β) (o : Outcome α) :
    (o.map f).isRaised = o.isRaised := by
  cases o <;> rfl

theorem Stretch.ErrorsEnd.map {α β : Type} {s : Stretch α} (hs : s.ErrorsEnd) (f : α → β) :
    (s.map f).ErrorsEnd where
  last := hs.last
  raised b hb hraised := by
    rw [Stretch.map, Outcome.isRaised_map]
    exact hs.raised b hb hraised

/-- A function that may refuse a value does not take an error back. -/
theorem Outcome.isRaised_refine {α β : Type} (f : α → Except Refusal β) {o : Outcome α}
    (h : o.isRaised) : (o.refine f).isRaised := by
  cases o with
  | matched value j | failed => cases h
  | raised e => rfl

theorem Stretch.ErrorsEnd.refine {α β : Type} {s : Stretch α} (hs : s.ErrorsEnd)
    (f : α → Except Refusal β) : (s.refine f).ErrorsEnd where
  last := hs.last
  raised b hb hraised := Outcome.isRaised_refine f (hs.raised b hb hraised)

namespace Parser

section
variable {run : Parser → Int → Option Attempt} {i : Int}

theorem runSequence_errorsEnd {ps : List Parser} {s : Stretch (List Tree)}
    (hs : runSequence run ps i = some s) : s.ErrorsEnd := by
  induction ps generalizing i s with
  | nil =>
    cases hs
    exact .done _
  | cons p ps ih =>
    rw [runSequence_cons, Option.bind_eq_some_iff] at hs
    obtain ⟨a, -, hs⟩ := hs
    cases ho : a.outcome with
    | failed | raised e =>
      simp only [ho, Option.some.injEq] at hs
      subst hs
      exact .single (by simp [ho, Outcome.isRaised])
    | matched tree j =>
      simp only [ho, Option.map_eq_some_iff] at hs
      obtain ⟨u, hu, rfl⟩ := hs
      exact .cons (by simp [ho, Outcome.isRaised]) (ih hu) (by simp)

theorem runChoice_errorsEnd {ps : List Parser} {s : Stretch Tree}
    (hs : runChoice run ps i = some s) : s.ErrorsEnd := by
  induction ps generalizing s with
  | nil =>
    cases hs
    exact .done _
  | cons p ps ih =>
    simp only [runChoice, Option.bind_eq_bind, Option.bind_eq_some_iff] at hs
    obtain ⟨a, -, hs⟩ := hs
    cases ho : a.outcome with
    | matched tree j | raised e =>
      simp only [ho, Option.some.injEq] at hs
      subst hs
      exact .single (by simp [ho])
    | failed =>
      simp only [ho, Option.map_eq_some_iff] at hs
      obtain ⟨u, hu, rfl⟩ := hs
      exact .cons (by simp [ho, Outcome.isRaised]) (ih hu) id

theorem runMany_errorsEnd {p : Parser} {rounds : Nat} {s : Stretch (List Tree)}
    (hs : runMany run p rounds i = some s) : s.ErrorsEnd := by
  induction rounds generalizing i s with
  | zero => cases hs
  | succ rounds ih =>
    simp only [runMany, Option.bind_eq_bind, Option.bind_eq_some_iff] at hs
    obtain ⟨a, -, hs⟩ := hs
    cases ho : a.outcome with
    | failed | raised e =>
      simp only [ho, Option.some.injEq] at hs
      subst hs
      exact .single (by simp [ho, Outcome.isRaised])
    | matched tree j =>
      have ha : ¬ a.outcome.isRaised := by simp [ho, Outcome.isRaised]
      simp only [ho] at hs
      split at hs
      · cases hs
        exact .single (absurd · ha)
      · rw [Option.map_eq_some_iff] at hs
        obtain ⟨u, hu, rfl⟩ := hs
        exact .cons ha (ih hu) (by simp)

/-- An error in a run that a step makes is the last thing that happens in the step. -/
theorem step_errorsEnd {store : Store} {tokens : Array Token} {rounds : Nat} {p : Parser}
    {s : Stretch Tree} (hs : step run store tokens rounds p i = some s) : s.ErrorsEnd := by
  cases p with
  | empty | jump =>
    cases hs
    exact .done _
  | elem kind =>
    simp only [step] at hs
    split at hs
    all_goals
      cases hs
      exact .done _
  | pair first second combine =>
    rw [step_pair, Option.map_eq_some_iff] at hs
    obtain ⟨u, hu, rfl⟩ := hs
    exact (runSequence_errorsEnd hu).refine _
  | sequence parts =>
    simp only [step, Option.map_eq_some_iff] at hs
    obtain ⟨u, hu, rfl⟩ := hs
    exact (runSequence_errorsEnd hu).map _
  | many inner =>
    simp only [step, Option.map_eq_some_iff] at hs
    obtain ⟨u, hu, rfl⟩ := hs
    exact (runMany_errorsEnd hu).map _
  | choice alternatives => exact runChoice_errorsEnd hs
  | transform inner f =>
    rw [step_transform, Option.map_eq_some_iff] at hs
    obtain ⟨a, -, rfl⟩ := hs
    exact .single (Outcome.isRaised_refine f)
  | forward place =>
    rw [step_forward] at hs
    split at hs
    · rw [Option.map_eq_some_iff] at hs
      obtain ⟨a, -, rfl⟩ := hs
      exact .single id
    · cases hs
      exact .done _
  | probe label inner | named name inner =>
    simp only [step, Option.map_eq_some_iff] at hs
    obtain ⟨a, -, rfl⟩ := hs
    exact .single id

end

end Parser

/-! ### The trace of a run -/

/-- The trace of a run is an account of its named runs. All of them are closed if the run returns,
and otherwise all but those that the error has ended, which lie one within the other. -/
structure Attempt.Accounted (a : Attempt) : Prop where
  interrupted : Interrupted a.namedRuns a.active a.trace
  returned : ¬ a.outcome.isRaised → a.active = []
  chain : a.active.Pairwise fun b c => c.Within b

namespace Attempt

variable {attempts : List Attempt}

theorem activeOfAll_cons (a : Attempt) (rest : List Attempt) :
    activeOfAll (a :: rest) = a.active ++ activeOfAll rest :=
  List.filter_append ..

theorem activeOfAll_eq_nil (h : ∀ b ∈ attempts, b.Accounted)
    (hreturned : ∀ b ∈ attempts, ¬ b.outcome.isRaised) : activeOfAll attempts = [] := by
  induction attempts with
  | nil => rfl
  | cons a rest ih =>
    rw [List.forall_mem_cons] at h hreturned
    rw [activeOfAll_cons, h.1.returned hreturned.1, ih h.2 hreturned.2]
    rfl

/-- Of runs that follow one another only the last may be open. -/
theorem interrupted_traceOfAll (hlast : attempts.Pairwise fun b _ => ¬ b.outcome.isRaised)
    (h : ∀ b ∈ attempts, b.Accounted) :
    Interrupted (runsOfAll Parser.isNamed attempts) (activeOfAll attempts) (traceOfAll attempts) ∧
      (activeOfAll attempts).Pairwise fun b c => c.Within b := by
  induction attempts with
  | nil => exact ⟨.bracketed .nil, .nil⟩
  | cons a rest ih =>
    rw [List.forall_mem_cons] at h
    rw [List.pairwise_cons] at hlast
    obtain ⟨hinterrupted, hchain⟩ := ih hlast.2 h.2
    rw [activeOfAll_cons, traceOfAll_cons, runsOfAll]
    cases rest with
    | nil =>
      have hnil : activeOfAll [] = [] := rfl
      have htrace : traceOfAll [] = [] := rfl
      rw [hnil, htrace, runsOfAll, List.append_nil, List.append_nil, List.append_nil]
      exact ⟨h.1.interrupted, h.1.chain⟩
    | cons b rest =>
      have hclosed := h.1.returned (hlast.1 b List.mem_cons_self)
      have hfirst : Bracketed a.namedRuns a.trace := (hclosed ▸ h.1.interrupted).closed
      rw [hclosed]
      exact ⟨hinterrupted.prepend hfirst, hchain⟩

/-- What holds of the runs that a run makes holds of the run itself. -/
theorem Accounted.of_nested {p : Parser} {i : Int} {s : Stretch Tree} (hs : s.ErrorsEnd)
    (h : ∀ b ∈ s.attempts, b.Accounted) : Accounted ⟨p, i, s.attempts, s.outcome⟩ := by
  obtain ⟨attempts, o⟩ := s
  obtain ⟨hinterrupted, hchain⟩ := interrupted_traceOfAll hs.last h
  have hclosed (ho : ¬ o.isRaised) : activeOfAll attempts = [] :=
    activeOfAll_eq_nil h fun b hb hraised => ho (hs.raised b hb hraised)
  have hactive : active ⟨p, i, attempts, o⟩ =
      (if p.isNamed ∧ o.isRaised then [⟨p, i, attempts, o⟩] else []) ++
        activeOfAll attempts := by
    rw [active, namedRuns, runsOf_eq, List.filter_append]
    congr 1
    by_cases hname : p.isNamed <;> simp [hname, List.filter_cons]
  have hwithin (b : Attempt) (hb : b ∈ activeOfAll attempts) : b.Within ⟨p, i, attempts, o⟩ := by
    obtain ⟨c, hc, hb⟩ := mem_runsOfAll.mp (List.mem_filter.mp hb).1
    obtain ⟨-, rfl | hwithin⟩ := mem_runsOf_iff.mp hb
    · exact .nested hc
    · exact .deeper hc hwithin
  refine ⟨?_, fun ho => by simp [hactive, hclosed ho, ho], ?_⟩
  · rw [hactive, namedRuns, runsOf_eq]
    cases p with
    | named name inner =>
      rw [trace_named]
      by_cases ho : o.isRaised
      · cases o with
        | matched tree j | failed => cases ho
        | raised e =>
          rw [Outcome.closing, List.append_nil]
          exact .opening .nil hinterrupted
      · rw [hclosed ho] at hinterrupted ⊢
        rw [if_neg (c := _ ∧ _) fun h => ho h.2]
        exact .bracketed (hinterrupted.closed.enclose ho)
    | _ => exact hinterrupted
  · rw [hactive]
    split
    · exact List.pairwise_cons.mpr ⟨hwithin, hchain⟩
    · exact hchain

end Attempt

namespace Parser

variable {store : Store} {tokens : Array Token} {n : Nat} {p : Parser} {i : Int} {a : Attempt}

theorem accounted (ha : attempt store tokens n p i = some a) : a.Accounted := by
  induction n generalizing p i a with
  | zero => cases ha
  | succ n ih =>
    have hnested (b : Attempt) (hb : b ∈ a.nested) : b.Accounted :=
      ih ((mem_nested_iff ha b).mp hb).1
    simp only [attempt, Option.map_eq_some_iff] at ha
    obtain ⟨s, hs, rfl⟩ := ha
    exact .of_nested (step_errorsEnd hs) hnested

end Parser

end Conditions
