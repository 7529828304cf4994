import Conditions.Parser.Trace

/-!
# Runs that keep a journal

An attempt is the whole history of a run, and its calls and its trace are taken from it when the run
has ended. A run that keeps a journal notes the calls, and the trace if it is asked for, while it is
made. It keeps nothing else of its history.
-/

namespace Conditions

/-- The notes of a run. -/
structure Journal where
  calls : List (String × Int)
  log : List TraceEntry
  deriving DecidableEq, Repr

namespace Journal

/-- The journal in which nothing is noted. -/
def start : Journal := ⟨[], []⟩

/-- Notes a call of a labelled parser. -/
def call (journal : Journal) (label : String) (index : Int) : Journal :=
  { journal with calls := journal.calls ++ [(label, index)] }

/-- Notes entries of a trace. -/
def write (journal : Journal) (entries : List TraceEntry) : Journal :=
  { journal with log := journal.log ++ entries }

end Journal

/-- A computation that keeps a journal, and may exceed its budget. -/
abbrev Journaling := StateT Journal Option

namespace Parser

section
variable (run : Parser → Int → Journaling (Outcome Tree))

/-- Runs parsers one behind the other. -/
def journalSequence : List Parser → Int → Journaling (Outcome (List Tree))
  | [], i => return .matched [] i
  | p :: ps, i => do
    match ← run p i with
    | .matched tree j => return (← journalSequence ps j).map (tree :: ·)
    | .failed => return .failed
    | .raised e => return .raised e

/-- Runs parsers at one index until one of them does not fail. -/
def journalChoice : List Parser → Int → Journaling (Outcome Tree)
  | [], _ => return .failed
  | p :: ps, i => do
    match ← run p i with
    | .failed => journalChoice ps i
    | outcome => return outcome

/-- Runs a parser again and again, until it fails or stays where it is. There are at most `rounds`
runs. -/
def journalMany (p : Parser) : (rounds : Nat) → Int → Journaling (Outcome (List Tree))
  | 0, _ => failure
  | rounds + 1, i => do
    match ← run p i with
    | .failed => return .matched [] i
    | .raised e => return .raised e
    | .matched tree j =>
      if j = i then return .matched [] i
      else return (← journalMany p rounds j).map (tree :: ·)

/-- What a parser does at an index, where `run` runs the parsers that it is made of. Only where the
run is traced does a name make a difference. -/
def journalStep (traced : Bool) (store : Store) (tokens : Array Token) (rounds : Nat) (p : Parser)
    (i : Int) : Journaling (Outcome Tree) :=
  match p with
  | empty value => return .matched value i
  | elem kind =>
    match tokenAt? tokens i with
    | some t => return if t.kind = kind then .matched (.token t) (i + 1) else .failed
    | none => return .failed
  | pair first second combine => do
    match ← run first i with
    | .matched tree j => return (← run second j).refine (combine tree)
    | .failed => return .failed
    | .raised e => return .raised e
  | sequence parts => return (← journalSequence run parts i).map .list
  | many inner => return (← journalMany run inner rounds i).map .list
  | choice alternatives => journalChoice run alternatives i
  | transform inner f => return (← run inner i).refine f
  | forward place =>
    match store[place]? with
    | some ⟨_, some body⟩ => run body i
    | some ⟨name?, none⟩ => return .raised (.undefinedForward (name?.getD ""))
    | none => return .raised (.undefinedForward "")
  | probe label inner => do
    modify (·.call label i)
    run inner i
  | jump distance value => return .matched value (i + distance)
  | named name inner =>
    if traced then do
      modify (·.write [.trying name i])
      let outcome ← run inner i
      modify (·.write (outcome.closing name i))
      return outcome
    else run inner i

end

/-- Runs a parser at an index, within the given budget, with a journal. -/
def runWithJournal (traced : Bool) (store : Store) (tokens : Array Token) :
    (budget : Nat) → Parser → Int → Journaling (Outcome Tree)
  | 0, _, _ => failure
  | budget + 1, p, i =>
    p.journalStep (runWithJournal traced store tokens budget) traced store tokens budget i

end Parser

end Conditions
