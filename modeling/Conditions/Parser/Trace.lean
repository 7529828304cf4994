import Conditions.Parser.Run

/-!
# Traces of runs

An attempt keeps its whole history. Two accounts are taken from it: the calls of the labelled
parsers, and the trace of the named ones. Both list what happened in the order in which it happened,
also when an error ended the run.

The accounts are put together from behind, in front of what comes later. The lemmas say that what
comes later is of no influence, and what the account of a single run and of a list of runs holds.
-/

namespace Conditions

/-- An entry of a trace. -/
inductive TraceEntry where
  /-- The parser with the name is run at the index. -/
  | trying (name : String) (index : Int)
  /-- It has matched up to the index `next`. -/
  | matched (name : String) (index next : Int)
  /-- It has failed. -/
  | failed (name : String) (index : Int)
  deriving DecidableEq, Repr

/-- The line of an entry. -/
def TraceEntry.text : TraceEntry → Except UnwritableNumber String
  | trying name index => do
    let index ← integerText index
    return s!"trying {name} at {index}"
  | matched name index next => do
    let index ← integerText index
    let next ← integerText next
    return s!"{name} matched {index}..{next}"
  | failed name index => do
    let index ← integerText index
    return s!"{name} failed at {index}"

/-- The entry that closes a run of a named parser; a run that an error ends is left open. -/
def Outcome.closing (name : String) (index : Int) : Outcome Tree → List TraceEntry
  | matched _ next => [.matched name index next]
  | failed => [.failed name index]
  | raised _ => []

namespace Attempt

mutual

/-- The calls of labelled parsers in a run, and those that come later. -/
def callsOnto (later : List (String × Int)) : Attempt → List (String × Int)
  | ⟨parser, index, nested, _⟩ =>
    match parser with
    | .probe label _ => (label, index) :: callsOfAllOnto later nested
    | _ => callsOfAllOnto later nested

/-- The calls of labelled parsers in runs that follow one another, and those that come later. -/
def callsOfAllOnto (later : List (String × Int)) : List Attempt → List (String × Int)
  | [] => later
  | a :: rest => a.callsOnto (callsOfAllOnto later rest)

end

/-- The calls of labelled parsers in a run, each with its label and the index. -/
def calls (a : Attempt) : List (String × Int) :=
  a.callsOnto []

/-- The calls of labelled parsers in runs that follow one another. -/
def callsOfAll (attempts : List Attempt) : List (String × Int) :=
  callsOfAllOnto [] attempts

mutual

/-- The trace of a run, and what comes later. -/
def traceOnto (later : List TraceEntry) : Attempt → List TraceEntry
  | ⟨parser, index, nested, outcome⟩ =>
    match parser with
    | .named name _ =>
      .trying name index :: traceOfAllOnto (outcome.closing name index ++ later) nested
    | _ => traceOfAllOnto later nested

/-- The trace of runs that follow one another, and what comes later. -/
def traceOfAllOnto (later : List TraceEntry) : List Attempt → List TraceEntry
  | [] => later
  | a :: rest => a.traceOnto (traceOfAllOnto later rest)

end

/-- The trace of a run: the entries of a named parser enclose those of the runs it makes. -/
def trace (a : Attempt) : List TraceEntry :=
  a.traceOnto []

/-- The trace of runs that follow one another. -/
def traceOfAll (attempts : List Attempt) : List TraceEntry :=
  traceOfAllOnto [] attempts

mutual

/-- The calls in a run do not depend on what comes later. -/
theorem callsOnto_eq_append (later : List (String × Int)) :
    ∀ a : Attempt, a.callsOnto later = a.calls ++ later
  | ⟨parser, _, nested, _⟩ => by
    have h := callsOfAllOnto_eq_append later nested
    cases parser <;> simp only [calls, callsOnto, h, List.cons_append] <;> rfl

/-- The calls in runs that follow one another do not depend on what comes later. -/
theorem callsOfAllOnto_eq_append (later : List (String × Int)) :
    ∀ attempts : List Attempt, callsOfAllOnto later attempts = callsOfAll attempts ++ later
  | [] => rfl
  | a :: rest => by
    simp only [callsOfAll, callsOfAllOnto]
    rw [callsOnto_eq_append, callsOfAllOnto_eq_append later rest,
      callsOnto_eq_append (callsOfAllOnto [] rest) a, List.append_assoc]
    rfl

end

mutual

/-- The trace of a run does not depend on what comes later. -/
theorem traceOnto_eq_append (later : List TraceEntry) :
    ∀ a : Attempt, a.traceOnto later = a.trace ++ later
  | ⟨parser, index, nested, outcome⟩ => by
    cases parser with
    | named name inner =>
      simp only [trace, traceOnto, List.append_nil, List.cons_append]
      rw [traceOfAllOnto_eq_append (outcome.closing name index ++ later) nested,
        traceOfAllOnto_eq_append (outcome.closing name index) nested, List.append_assoc]
    | _ => exact traceOfAllOnto_eq_append later nested

/-- The trace of runs that follow one another does not depend on what comes later. -/
theorem traceOfAllOnto_eq_append (later : List TraceEntry) :
    ∀ attempts : List Attempt, traceOfAllOnto later attempts = traceOfAll attempts ++ later
  | [] => rfl
  | a :: rest => by
    simp only [traceOfAll, traceOfAllOnto]
    rw [traceOnto_eq_append, traceOfAllOnto_eq_append later rest,
      traceOnto_eq_append (traceOfAllOnto [] rest) a, List.append_assoc]
    rfl

end

/-- The calls in runs that follow one another are those in the first and then those in the rest. -/
theorem callsOfAll_cons (a : Attempt) (rest : List Attempt) :
    callsOfAll (a :: rest) = a.calls ++ callsOfAll rest :=
  callsOnto_eq_append _ a

/-- The trace of runs that follow one another is that of the first and then that of the rest. -/
theorem traceOfAll_cons (a : Attempt) (rest : List Attempt) :
    traceOfAll (a :: rest) = a.trace ++ traceOfAll rest :=
  traceOnto_eq_append _ a

/-- The trace of a named parser encloses the entries of the runs made on its behalf. -/
theorem trace_named (name : String) (inner : Parser) (i : Int) (nested : List Attempt)
    (outcome : Outcome Tree) :
    (Attempt.mk (.named name inner) i nested outcome).trace =
      .trying name i :: traceOfAll nested ++ outcome.closing name i := by
  simp only [trace, traceOnto, List.append_nil, traceOfAllOnto_eq_append, List.cons_append]

end Attempt

end Conditions
