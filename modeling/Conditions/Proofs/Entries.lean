import Conditions.Parser.Trace
import Conditions.Proofs.Indices
import Conditions.Proofs.Recognition
import Conditions.Proofs.Steps
import Mathlib.Data.List.Nodup

/-!
# Entries of conditions

Conditions refer to themselves, and a choice tries its alternatives at the same index, but no index
is ever entered twice. The first alternative is without conditions. The second one enters its
operands behind its keyword, each where the one before it ends, and the operand that fails is the
last one. That one may have entered indices beyond its own, but only behind an opening parenthesis.
What must follow the operands is a closing one, so the alternative then fails as well, and with it
every condition around it.
-/

namespace Conditions

/-- The indices rise, from an index on, and lie before the end of a match, which does not lie before
that index either. -/
structure Rising {α : Type} (lo : Int) (o : Outcome α) (indices : List Int) : Prop where
  sorted : indices.Pairwise (· < ·)
  above : ∀ k ∈ indices, lo ≤ k
  onward : ∀ x j, o = .matched x j → lo ≤ j
  below : ∀ x j, o = .matched x j → ∀ k ∈ indices, k < j

namespace Rising

variable {α β : Type} {lo mid : Int} {o : Outcome α} {o' : Outcome β} {xs ys : List Int}

/-- Only the end of a match matters. -/
theorem of_end (h : Rising lo o xs) (ho : ∀ y j, o' = .matched y j → ∃ x, o = .matched x j) :
    Rising lo o' xs where
  sorted := h.sorted
  above := h.above
  onward y j hj := by
    obtain ⟨x, hx⟩ := ho y j hj
    exact h.onward x j hx
  below y j hj := by
    obtain ⟨x, hx⟩ := ho y j hj
    exact h.below x j hx

theorem map (h : Rising lo o xs) (f : α → β) : Rising lo (o.map f) xs := by
  refine h.of_end fun y j hj => ?_
  obtain ⟨x, hx, -⟩ := Outcome.map_eq_matched hj
  exact ⟨x, hx⟩

theorem refine (h : Rising lo o xs) (f : α → Except Refusal β) : Rising lo (o.refine f) xs := by
  refine h.of_end fun y j hj => ?_
  obtain ⟨x, hx, -⟩ := Outcome.refine_eq_matched hj
  exact ⟨x, hx⟩

/-- The indices of a match are followed by those from its end on. -/
theorem append {x : α} (h : Rising lo o xs) (ho : o = .matched x mid) (h' : Rising mid o' ys) :
    Rising lo o' (xs ++ ys) where
  sorted := by
    refine List.pairwise_append.mpr ⟨h.sorted, h'.sorted, fun k hk l hl => ?_⟩
    exact Int.lt_of_lt_of_le (h.below x mid ho k hk) (h'.above l hl)
  above k hk := by
    rcases List.mem_append.mp hk with hk | hk
    · exact h.above k hk
    · exact Int.le_trans (h.onward x mid ho) (h'.above k hk)
  onward y j hj := Int.le_trans (h.onward x mid ho) (h'.onward y j hj)
  below y j hj k hk := by
    rcases List.mem_append.mp hk with hk | hk
    · exact Int.lt_of_lt_of_le (h.below x mid ho k hk) (h'.onward y j hj)
    · exact h'.below y j hj k hk

theorem nil (h : ∀ x j, o = .matched x j → lo ≤ j) : Rising lo o [] where
  sorted := .nil
  above := List.forall_mem_nil _
  onward := h
  below _ _ _ := List.forall_mem_nil _

/-- An index before all others. -/
theorem cons (h : Rising (lo + 1) o xs) : Rising lo o (lo :: xs) where
  sorted := List.pairwise_cons.mpr ⟨fun k hk => Int.lt_of_add_one_le (h.above k hk), h.sorted⟩
  above k hk := by
    rcases List.mem_cons.mp hk with rfl | hk
    · exact Int.le_refl _
    · exact Int.le_of_lt (Int.lt_of_add_one_le (h.above k hk))
  onward x j hj := Int.le_of_lt (Int.lt_of_add_one_le (h.onward x j hj))
  below x j hj k hk := by
    rcases List.mem_cons.mp hk with rfl | hk
    · exact Int.lt_of_add_one_le (h.onward x j hj)
    · exact h.below x j hj k hk

end Rising

namespace Parser

/-! ### Parsers without conditions -/

mutual

/-- No part of the parser is a forward, and none has the name. -/
def free (name : String) : Parser → Bool
  | forward _ => false
  | empty _ | elem _ | jump _ _ => true
  | pair first second _ => first.free name && second.free name
  | sequence parts | choice parts => allFree name parts
  | many inner | transform inner _ | probe _ inner => inner.free name
  | named name' inner => name' != name && inner.free name

/-- No part of the parsers is a forward, and none has the name. -/
def allFree (name : String) : List Parser → Bool
  | [] => true
  | p :: ps => p.free name && allFree name ps

end

section
variable {name : String} {store : Store} {tokens : Array Token} {p q : Parser} {i k : Int}

theorem allFree_iff {ps : List Parser} : allFree name ps ↔ ∀ p ∈ ps, p.free name := by
  induction ps with
  | nil => simp [allFree]
  | cons p ps ih => simp [allFree, ih]

theorem CallsInTurn.mem {ps : List Parser} (h : CallsInTurn store tokens ps i q k) : q ∈ ps := by
  induction ps generalizing i with
  | nil => cases h
  | cons p ps ih =>
    rcases h with ⟨rfl, -⟩ | ⟨tree, j, -, hcall⟩
    · exact List.mem_cons_self
    · exact List.mem_cons_of_mem p (ih hcall)

theorem Calls.free (hp : p.free name) (h : Calls store tokens p i q k) : q.free name := by
  cases p with
  | empty | elem | jump => cases h
  | forward place => cases hp
  | pair first second combine =>
    simp only [Parser.free, Bool.and_eq_true] at hp
    have hq := CallsInTurn.mem h
    simp only [List.mem_cons, List.not_mem_nil, or_false] at hq
    rcases hq with rfl | rfl
    · exact hp.1
    · exact hp.2
  | sequence parts =>
    simp only [Parser.free, allFree_iff] at hp
    exact hp q (CallsInTurn.mem h)
  | choice alternatives =>
    simp only [Parser.free, allFree_iff] at hp
    exact hp q h.1.mem
  | many inner | transform inner _ | probe _ inner =>
    obtain ⟨rfl, -⟩ := h
    exact hp
  | named name' inner =>
    obtain ⟨rfl, -⟩ := h
    simp only [Parser.free, Bool.and_eq_true] at hp
    exact hp.2

theorem Reaches.free (hp : p.free name) (h : Reaches store tokens p i q k) : q.free name := by
  induction h with
  | call hcall => exact hcall.free hp
  | further hcall _ ih => exact ih (hcall.free hp)

end

/-- Only parsers with the name and forwards for the place are marked. -/
def MarksOnly (mark : Parser → Bool) (name : String) (place : Nat) : Prop :=
  ∀ p, mark p → p.name? = some name ∨ p = .forward place

/-- In a run of a parser that is free of what is marked there are no marked runs. -/
theorem indicesOf_free {mark : Parser → Bool} {name : String} {place : Nat}
    (hmark : MarksOnly mark name place) {p : Parser} (hp : p.free name) {store : Store}
    {tokens : Array Token} {n : Nat} {i : Int} {a : Attempt}
    (ha : attempt store tokens n p i = some a) : a.indicesOf mark = [] := by
  refine List.eq_nil_iff_forall_not_mem.mpr fun k hk => ?_
  obtain ⟨b, hb, hwithin, -⟩ := Attempt.mem_indicesOf_iff.mp hk
  have hfree : b.parser.free name := by
    rcases hwithin with rfl | hwithin
    · rw [((eq_iff_of_attempt ha).mp rfl).2.1]
      exact hp
    · exact (reaches_of_within ha hwithin).free hp
  rcases hmark b.parser hb with hname | hforward
  · cases hparser : b.parser with
    | named name' inner =>
      rw [hparser] at hname hfree
      cases hname
      simp [Parser.free] at hfree
    | _ =>
      rw [hparser] at hname
      cases hname
  · rw [hforward] at hfree
    cases hfree

/-! ### Sequences -/

section
variable {mark : Parser → Bool} {run : Parser → Int → Option Attempt}

/-- Where the parsers are run one behind the other, the marked indices rise. -/
def SequenceRises (mark : Parser → Bool) (run : Parser → Int → Option Attempt) (ps : List Parser) :
    Prop :=
  ∀ i s, runSequence run ps i = some s →
    Rising i s.outcome (Attempt.indicesOfAll mark s.attempts)

theorem sequenceRises_nil : SequenceRises mark run [] := by
  rintro i _ ⟨⟩
  refine .nil ?_
  rintro _ _ ⟨⟩
  exact Int.le_refl _

theorem sequenceRises_cons {p : Parser} {ps : List Parser}
    (hp : ∀ i a, run p i = some a → Rising i a.outcome (a.indicesOf mark))
    (hps : SequenceRises mark run ps) : SequenceRises mark run (p :: ps) := by
  intro i s hs
  rw [runSequence_cons, Option.bind_eq_some_iff] at hs
  obtain ⟨a, ha, hs⟩ := hs
  have hfirst := hp i a ha
  cases ho : a.outcome with
  | failed | raised e =>
    simp only [ho, Option.some.injEq] at hs
    subst hs
    simp only [Attempt.indicesOfAll, List.append_nil]
    exact hfirst.of_end nofun
  | matched tree j =>
    simp only [ho, Option.map_eq_some_iff] at hs
    obtain ⟨u, hu, rfl⟩ := hs
    exact hfirst.append ho ((hps j u hu).map _)

end

section
variable {store : Store} {tokens : Array Token} {n : Nat} {i : Int} {a : Attempt}

/-- What matches as one token is a token of the kind. -/
theorem matched_token {kind : TokenKind} (ha : attempt store tokens n (.token kind) i = some a)
    {tree : Tree} {j : Int} (ho : a.outcome = .matched tree j) :
    (∃ t, tokenAt? tokens i = some t ∧ t.kind = kind) ∧ j = i + 1 := by
  obtain ⟨_, -, b, hb, rfl⟩ := exists_named ha
  obtain ⟨_, -, s, hs, rfl⟩ := exists_step hb
  simp only [step] at hs
  split at hs
  · next t ht =>
    cases hs
    simp only [Stretch.done] at ho
    split at ho
    · next hkind =>
      cases ho
      exact ⟨⟨t, ht, hkind⟩, rfl⟩
    · cases ho
  · cases hs
    cases ho

/-- There is no opening parenthesis at the index. -/
def Unopened (tokens : Array Token) (i : Int) : Prop :=
  ∀ t, tokenAt? tokens i = some t → t.kind ≠ .leftParen

/-- A run of a choice between two parsers is a run of the first one, which may have failed, in which
case it is followed by one of the second. -/
theorem runChoice_two {run : Parser → Int → Option Attempt} {p q : Parser} {s : Stretch Tree}
    (hs : runChoice run [p, q] i = some s) :
    (∃ b, run p i = some b ∧ s = ⟨[b], b.outcome⟩) ∨
      ∃ b c, run p i = some b ∧ run q i = some c ∧ s = ⟨[b, c], c.outcome⟩ := by
  simp only [runChoice, Option.bind_eq_bind, Option.bind_eq_some_iff] at hs
  obtain ⟨b, hb, hs⟩ := hs
  cases ho : b.outcome with
  | matched tree j | raised e =>
    simp only [ho, Option.some.injEq] at hs
    exact .inl ⟨b, hb, by rw [← hs, ho]⟩
  | failed =>
    simp only [ho, Option.map_eq_some_iff, Option.bind_eq_some_iff] at hs
    obtain ⟨u, ⟨c, hc, hu⟩, rfl⟩ := hs
    refine .inr ⟨b, c, hb, hc, ?_⟩
    cases hoc : c.outcome with
    | matched tree j | raised e =>
      simp only [hoc, Option.some.injEq] at hu
      subst hu
      rfl
    | failed =>
      simp only [hoc, Option.map_some, Option.some.injEq] at hu
      subst hu
      rfl

end

/-- The parser is the forward for the place. -/
def isForwardTo (place : Nat) : Parser → Bool
  | forward place' => place' == place
  | _ => false

/-- The parser has the name. -/
def bearsName (name : String) (p : Parser) : Bool :=
  p.name? == some name

end Parser

namespace Attempt

mutual

/-- The trace has an entry for each time that a parser with the name is tried at the index. -/
theorem count_trying (name : String) (k : Int) :
    ∀ a : Attempt, a.trace.count (.trying name k) =
      (a.indicesOf (Parser.bearsName name)).count k
  | ⟨parser, index, nested, outcome⟩ => by
    have hclosing (name' : String) : (outcome.closing name' index).count (.trying name k) = 0 := by
      cases outcome <;> simp [Outcome.closing]
    cases parser with
    | named name' inner =>
      rw [trace_named, indicesOf, List.cons_append, List.count_cons, List.count_append, hclosing,
        countAll_trying name k nested, List.count_append]
      by_cases hname : name' = name
      · subst hname
        simp [Parser.bearsName, Parser.name?, List.count_cons, Nat.add_comm]
      · simp [Parser.bearsName, Parser.name?, hname]
    | _ => exact countAll_trying name k nested

theorem countAll_trying (name : String) (k : Int) :
    ∀ attempts : List Attempt, (traceOfAll attempts).count (.trying name k) =
      (indicesOfAll (Parser.bearsName name) attempts).count k
  | [] => rfl
  | a :: rest => by
    rw [traceOfAll_cons, List.count_append, count_trying name k a, countAll_trying name k rest,
      indicesOfAll, List.count_append]

end

end Attempt

namespace Grammar

open Conditions.Parser

/-- The mark singles out the entries of conditions. It marks them, or else the forward that they
consist of, and nothing else in the grammar. -/
structure MarksEntries (mark : Parser → Bool) : Prop where
  only : MarksOnly mark "condition" conditionPlace
  once : mark condition = !mark (.forward conditionPlace)

section
variable {mark : Parser → Bool} {tokens : Array Token} {n : Nat} {i : Int} {a : Attempt}

theorem MarksEntries.unmarked (hmark : MarksEntries mark) {p : Parser}
    (hname : p.name? ≠ some "condition") (hforward : p ≠ .forward conditionPlace) :
    mark p = false := by
  cases hp : mark p with
  | false => rfl
  | true => exact absurd (hmark.only p hp) (not_or.mpr ⟨hname, hforward⟩)

theorem MarksEntries.transform (hmark : MarksEntries mark) (p : Parser)
    (f : Tree → Except Refusal Tree) : mark (.transform p f) = false :=
  hmark.unmarked nofun nofun

theorem indicesOf_unmarked {p : Parser} (hp : mark p = false) (nested : List Attempt)
    (o : Outcome Tree) :
    (Attempt.mk p i nested o).indicesOf mark = Attempt.indicesOfAll mark nested := by
  simp [Attempt.indicesOf, hp]

theorem indicesOfAll_single (b : Attempt) :
    Attempt.indicesOfAll mark [b] = b.indicesOf mark :=
  List.append_nil _

theorem rising_of_free (hmark : MarksEntries mark) {p : Parser} (hp : p.free "condition")
    (hjumpless : p.jumpless) (ha : attempt store tokens n p i = some a) :
    Rising i a.outcome (a.indicesOf mark) := by
  rw [indicesOf_free hmark.only hp ha]
  exact .nil fun tree j ho => (matchesOnward_attempt jumpless_store n hjumpless i a tree j ha ho).le

/-- What stands between parentheses begins behind the opening one, and where there is none, nothing
is entered. -/
theorem parenthesized_rises (hmark : MarksEntries mark) {ps : List Parser}
    (hps : ∀ m < n, SequenceRises mark (attempt store tokens m) (ps ++ [.token .rightParen]))
    (ha : attempt store tokens n (.parenthesized ps) i = some a) :
    Rising (i + 1) a.outcome (a.indicesOf mark) ∧
      (Unopened tokens i → a.indicesOf mark = []) := by
  obtain ⟨m, hm, b, hb, rfl⟩ := exists_transform ha
  obtain ⟨l, hl, s, hs, rfl⟩ := exists_sequence hb
  have hsequence (qs : List Parser) : mark (.sequence qs) = false := hmark.unmarked nofun nofun
  rw [indicesOf_unmarked (hmark.transform _ _), indicesOfAll_single, indicesOf_unmarked (hsequence _)]
  suffices h : Rising (i + 1) s.outcome (Attempt.indicesOfAll mark s.attempts) ∧
      (Unopened tokens i → Attempt.indicesOfAll mark s.attempts = []) from
    ⟨(h.1.map .list).refine fun tree => .ok (dropEnds tree), h.2⟩
  rw [List.cons_append, runSequence_cons, Option.bind_eq_some_iff] at hs
  obtain ⟨c, hc, hs⟩ := hs
  have hfree : c.indicesOf mark = [] := indicesOf_free hmark.only rfl hc
  cases ho : c.outcome with
  | failed | raised e =>
    simp only [ho, Option.some.injEq] at hs
    subst hs
    simp only [Attempt.indicesOfAll, hfree, List.append_nil]
    exact ⟨.nil nofun, fun _ => trivial⟩
  | matched tree j =>
    simp only [ho, Option.map_eq_some_iff] at hs
    obtain ⟨u, hu, rfl⟩ := hs
    obtain ⟨⟨t, ht, hkind⟩, rfl⟩ := matched_token hc ho
    simp only [Attempt.indicesOfAll, hfree, List.nil_append]
    refine ⟨(hps l (Nat.lt_trans hl hm) _ u hu).map _, fun hunopened => ?_⟩
    exact absurd hkind (hunopened t ht)

theorem equality_rises (hmark : MarksEntries mark)
    (ha : attempt store tokens n equality i = some a) :
    Rising (i + 1) a.outcome (a.indicesOf mark) ∧
      (Unopened tokens i → a.indicesOf mark = []) := by
  obtain ⟨m, -, b, hb, rfl⟩ := exists_named ha
  have hname (q : Parser) : mark (.named "equality" q) = false :=
    hmark.unmarked (by simp [Parser.name?]) nofun
  rw [indicesOf_unmarked (hname _), indicesOfAll_single]
  refine parenthesized_rises hmark (fun l _ => ?_) hb
  have hfree {p : Parser} (hp : p.free "condition") (hj : p.jumpless) (i : Int) (a : Attempt) :
      attempt store tokens l p i = some a → Rising i a.outcome (a.indicesOf mark) :=
    rising_of_free hmark hp hj
  exact sequenceRises_cons (hfree rfl rfl) <| sequenceRises_cons (hfree rfl rfl) <|
    sequenceRises_cons (hfree rfl rfl) <| sequenceRises_cons (hfree rfl rfl) sequenceRises_nil

/-! ### Conditions -/

/-- A run of a condition enters its own index first, and further ones behind it, but only where
there is an opening parenthesis. -/
structure Entered (mark : Parser → Bool) (tokens : Array Token) (i : Int) (a : Attempt) : Prop where
  rising : ∃ rest, a.indicesOf mark = i :: rest ∧ Rising (i + 1) a.outcome rest
  alone : Unopened tokens i → a.indicesOf mark = [i]

/-- Where operands are read, the indices that they enter rise. They go up to the end of the
operands, and beyond it only where an opening parenthesis follows. -/
structure OperandsRise {α : Type} (tokens : Array Token) (lo : Int) (o : Outcome α)
    (indices : List Int) : Prop where
  sorted : indices.Pairwise (· < ·)
  above : ∀ k ∈ indices, lo ≤ k
  onward : ∀ x j, o = .matched x j → lo ≤ j
  upTo : ∀ x j, o = .matched x j → Unopened tokens j → ∀ k ∈ indices, k ≤ j

/-- Operands that are not followed by a match of their own. -/
theorem OperandsRise.of_ended {α β : Type} {lo : Int} {o : Outcome α} {indices : List Int}
    (h : OperandsRise tokens lo o indices) {o' : Outcome β} (ho : ∀ y j, o' ≠ .matched y j) :
    Rising lo o' indices :=
  ⟨h.sorted, h.above, fun y j hj => absurd hj (ho y j), fun y j hj => absurd hj (ho y j)⟩

theorem runMany_rises {run : Parser → Int → Option Attempt}
    (hrun : ∀ i a, run condition i = some a → Entered mark tokens i a) {rounds : Nat}
    {s : Stretch (List Tree)} (hs : runMany run condition rounds i = some s) :
    OperandsRise tokens i s.outcome (Attempt.indicesOfAll mark s.attempts) := by
  induction rounds generalizing i s with
  | zero => cases hs
  | succ rounds ih =>
    simp only [runMany, Option.bind_eq_bind, Option.bind_eq_some_iff] at hs
    obtain ⟨a, ha, hs⟩ := hs
    have hentered := hrun i a ha
    obtain ⟨rest, hindices, hrising⟩ := hentered.rising
    have hfirst : Rising i a.outcome (a.indicesOf mark) := hindices ▸ hrising.cons
    cases ho : a.outcome with
    | failed =>
      -- The operands end here, and what this run has entered may lie behind their end.
      simp only [ho, Option.some.injEq] at hs
      subst hs
      rw [indicesOfAll_single]
      refine ⟨hfirst.sorted, hfirst.above, ?_, ?_⟩
      · rintro _ _ ⟨⟩
        exact Int.le_refl _
      · rintro _ _ ⟨⟩ hunopened
        rw [hentered.alone hunopened]
        simp
    | raised e =>
      simp only [ho, Option.some.injEq] at hs
      subst hs
      rw [indicesOfAll_single]
      refine ⟨hfirst.sorted, hfirst.above, ?_, ?_⟩ <;> rintro _ _ ⟨⟩
    | matched tree j =>
      -- All that this run has entered lies before its end, from which on the others are read.
      have hne : ¬ j = i := by
        have := hrising.onward tree j ho
        omega
      simp only [ho, hne, if_false, Option.map_eq_some_iff] at hs
      obtain ⟨u, hu, rfl⟩ := hs
      have hrest := ih hu
      have hij := hfirst.onward tree j ho
      have hbelow := hfirst.below tree j ho
      have hend (trees : List Tree) (k : Int) (hk : u.outcome.map (tree :: ·) = .matched trees k) :
          ∃ trees', u.outcome = .matched trees' k := by
        obtain ⟨trees', htrees, -⟩ := Outcome.map_eq_matched hk
        exact ⟨trees', htrees⟩
      refine ⟨?_, ?_, fun trees k hk => ?_, fun trees k hk hunopened => ?_⟩
      · refine List.pairwise_append.mpr ⟨hfirst.sorted, hrest.sorted, fun k hk l hl => ?_⟩
        exact Int.lt_of_lt_of_le (hbelow k hk) (hrest.above l hl)
      · refine List.forall_mem_append.mpr ⟨hfirst.above, fun k hk => ?_⟩
        exact Int.le_trans hij (hrest.above k hk)
      · obtain ⟨trees', htrees⟩ := hend trees k hk
        exact Int.le_trans hij (hrest.onward trees' k htrees)
      · obtain ⟨trees', htrees⟩ := hend trees k hk
        refine List.forall_mem_append.mpr ⟨fun l hl => ?_, hrest.upTo trees' k htrees hunopened⟩
        exact Int.le_of_lt (Int.lt_of_lt_of_le (hbelow l hl) (hrest.onward trees' k htrees))

/-- A closing parenthesis is no opening one. -/
theorem runSequence_rightParen (hmark : MarksEntries mark) {s : Stretch (List Tree)}
    (hs : runSequence (attempt store tokens n) [.token .rightParen] i = some s) :
    Attempt.indicesOfAll mark s.attempts = [] ∧
      ∀ trees j, s.outcome = .matched trees j → Unopened tokens i ∧ j = i + 1 := by
  rw [runSequence_cons, Option.bind_eq_some_iff] at hs
  obtain ⟨a, ha, hs⟩ := hs
  have hfree : a.indicesOf mark = [] := indicesOf_free hmark.only rfl ha
  cases ho : a.outcome with
  | failed | raised e =>
    simp only [ho, Option.some.injEq] at hs
    subst hs
    exact ⟨by rw [indicesOfAll_single, hfree], nofun⟩
  | matched tree k =>
    simp only [ho, runSequence, Option.map_some, Option.some.injEq] at hs
    subst hs
    obtain ⟨⟨t, ht, hkind⟩, rfl⟩ := matched_token ha ho
    refine ⟨by simp [Stretch.done, Attempt.indicesOfAll, hfree], ?_⟩
    rintro _ _ ⟨⟩
    refine ⟨fun t' ht' => ?_, rfl⟩
    rw [ht] at ht'
    cases ht'
    rw [hkind]
    decide

/-- Operands and the closing parenthesis behind them. Where it is found, the operand that has failed
there has entered no index but this one. -/
theorem operands_rise (hmark : MarksEntries mark)
    (h : ∀ m < n, ∀ i a, attempt store tokens m condition i = some a → Entered mark tokens i a) :
    SequenceRises mark (attempt store tokens n) [.many condition, .token .rightParen] := by
  intro i s hs
  rw [runSequence_cons, Option.bind_eq_some_iff] at hs
  obtain ⟨a, ha, hs⟩ := hs
  obtain ⟨m, hm, r, hr, rfl⟩ := exists_many ha
  have hmany : mark (.many condition) = false := hmark.unmarked nofun nofun
  have hoperands := runMany_rises (h m hm) hr
  have hindices := indicesOf_unmarked (i := i) hmany r.attempts (r.outcome.map .list)
  cases ho : r.outcome with
  | failed | raised e =>
    simp only [ho, Outcome.map, Option.some.injEq] at hs
    subst hs
    rw [indicesOfAll_single]
    rw [ho] at hindices
    exact hindices ▸ hoperands.of_ended (by rintro _ _ ⟨⟩)
  | matched trees j =>
    simp only [ho, Outcome.map, Option.map_eq_some_iff] at hs
    obtain ⟨u, hu, rfl⟩ := hs
    obtain ⟨hnone, hclosing⟩ := runSequence_rightParen hmark hu
    rw [ho] at hindices hoperands
    simp only [Attempt.indicesOfAll, hnone, List.append_nil]
    rw [indicesOf_unmarked hmany]
    have hend {y : List Tree} {k : Int} (hk : u.outcome.map (.list trees :: ·) = .matched y k) :
        Unopened tokens j ∧ k = j + 1 := by
      obtain ⟨y', hy', -⟩ := Outcome.map_eq_matched hk
      exact hclosing y' k hy'
    refine ⟨hoperands.sorted, hoperands.above, fun y k hk => ?_, fun y k hk l hl => ?_⟩
    · obtain ⟨-, rfl⟩ := hend hk
      exact Int.le_add_one (hoperands.onward trees j rfl)
    · obtain ⟨hunopened, rfl⟩ := hend hk
      exact Int.lt_add_one_of_le (hoperands.upTo trees j rfl hunopened l hl)

theorem compound_rises (hmark : MarksEntries mark)
    (h : ∀ m < n, ∀ i a, attempt store tokens m condition i = some a → Entered mark tokens i a)
    (ha : attempt store tokens n compound i = some a) :
    Rising (i + 1) a.outcome (a.indicesOf mark) ∧
      (Unopened tokens i → a.indicesOf mark = []) := by
  obtain ⟨m, hm, b, hb, rfl⟩ := exists_named ha
  obtain ⟨l, hl, c, hc, rfl⟩ := exists_transform hb
  have hname (q : Parser) : mark (.named "boolean" q) = false :=
    hmark.unmarked (by simp [Parser.name?]) nofun
  rw [indicesOf_unmarked (hname _), indicesOfAll_single, indicesOf_unmarked (hmark.transform _ _),
    indicesOfAll_single]
  obtain ⟨hrising, hnone⟩ := parenthesized_rises hmark (fun k hk => sequenceRises_cons
    (fun i a => rising_of_free hmark rfl rfl)
    (operands_rise hmark fun k' hk' => h k' (by omega))) hc
  exact ⟨hrising.refine fun tree => .ok tree.consPair, hnone⟩

/-- What a condition is: an equality, which enters nothing, or else a compound condition. -/
theorem body_rises (hmark : MarksEntries mark)
    (h : ∀ m < n, ∀ i a, attempt store tokens m condition i = some a → Entered mark tokens i a)
    (ha : attempt store tokens n (.choice [equality, compound]) i = some a) :
    Rising (i + 1) a.outcome (a.indicesOf mark) ∧
      (Unopened tokens i → a.indicesOf mark = []) := by
  obtain ⟨m, hm, s, hs, rfl⟩ := exists_step ha
  have hchoice : mark (.choice [equality, compound]) = false := hmark.unmarked nofun nofun
  rw [indicesOf_unmarked hchoice]
  rcases runChoice_two hs with ⟨b, hb, rfl⟩ | ⟨b, c, hb, hc, rfl⟩
  · rw [indicesOfAll_single]
    exact equality_rises hmark hb
  · have hfree : b.indicesOf mark = [] := indicesOf_free hmark.only rfl hb
    simp only [Attempt.indicesOfAll, hfree, List.nil_append, List.append_nil]
    exact compound_rises hmark (fun k hk => h k (by omega)) hc

/-- The forward of conditions enters the condition where it stands. -/
theorem forward_rises (hmark : MarksEntries mark)
    (h : ∀ m < n, ∀ i a, attempt store tokens m condition i = some a → Entered mark tokens i a)
    (ha : attempt store tokens n (.forward conditionPlace) i = some a) :
    ∃ rest, a.indicesOf mark = (if mark (.forward conditionPlace) then [i] else []) ++ rest ∧
      Rising (i + 1) a.outcome rest ∧ (Unopened tokens i → rest = []) := by
  obtain ⟨m, hm, s, hs, rfl⟩ := exists_step ha
  have hs : (attempt store tokens m (.choice [equality, compound]) i).map Stretch.single =
    some s := hs
  rw [Option.map_eq_some_iff] at hs
  obtain ⟨b, hb, rfl⟩ := hs
  obtain ⟨hrising, hnone⟩ := body_rises hmark (fun k hk => h k (by omega)) hb
  refine ⟨b.indicesOf mark, ?_, hrising, hnone⟩
  simp [Attempt.indicesOf, Attempt.indicesOfAll, Stretch.single]

/-- Every run of a condition enters its own index first, and no index twice. The induction is on the
budget: the operands of a compound condition have less. -/
theorem condition_entered (hmark : MarksEntries mark) (n : Nat) (i : Int) (a : Attempt)
    (ha : attempt store tokens n condition i = some a) : Entered mark tokens i a := by
  induction n using Nat.strongRecOn generalizing i a with
  | ind n ih =>
    obtain ⟨m, hm, b, hb, rfl⟩ := exists_named ha
    obtain ⟨rest, hindices, hrising, hnone⟩ :=
      forward_rises hmark (fun k hk => ih k (by omega)) hb
    have hown : (Attempt.mk condition i [b] b.outcome).indicesOf mark = i :: rest := by
      rw [Attempt.indicesOf, indicesOfAll_single, hindices, hmark.once]
      cases mark (.forward conditionPlace) <;> rfl
    refine ⟨⟨rest, hown, hrising⟩, fun hunopened => ?_⟩
    rw [show Attempt.mk (.named "condition" (.forward conditionPlace)) i [b] b.outcome =
      Attempt.mk condition i [b] b.outcome from rfl, hown, hnone hunopened]

end

theorem marksEntries_forward : MarksEntries (isForwardTo conditionPlace) where
  only p hp := by
    cases p with
    | forward place =>
      rw [eq_of_beq hp]
      exact .inr rfl
    | _ => cases hp
  once := rfl

theorem marksEntries_name : MarksEntries (bearsName "condition") where
  only _ hp := .inl (eq_of_beq hp)
  once := rfl

/-- A condition within a condition is entered further on. -/
theorem index_lt_of_within {tokens : Array Token} {n : Nat} {i : Int} {b c : Attempt}
    (hb : attempt store tokens n (.forward conditionPlace) i = some b) (hwithin : c.Within b)
    (hc : c.parser = .forward conditionPlace) : i < c.index := by
  obtain ⟨rest, hindices, hrising, -⟩ := forward_rises marksEntries_forward
    (fun m _ => condition_entered marksEntries_forward m) hb
  obtain ⟨-, hparser, hindex⟩ := (eq_iff_of_attempt hb).mp rfl
  have hsplit : b.indicesOf (isForwardTo conditionPlace) = _ := Attempt.indicesOf_eq b
  rw [hindices, hparser, hindex, List.append_cancel_left_eq] at hsplit
  rw [hsplit] at hrising
  have hmark : isForwardTo conditionPlace c.parser := by
    rw [hc]
    rfl
  exact Int.lt_of_add_one_le (hrising.above _ (Attempt.index_mem_of_within hwithin hmark))

/-- A run of a condition ends, and enters every index once at most. It enters the indices one behind
the other, each nested entry further on than the one that encloses it, and none out of range but the
one where it begins. So the trace has no entry for the same condition at the same index twice. -/
theorem condition_enters_once (tokens : Array Token) (i : Int) :
    ∃ a, Production.condition.run tokens i = some a ∧
      (∀ n, budget tokens ≤ n → attempt store tokens n condition i = some a) ∧
      (∀ e, a.outcome ≠ .raised e) ∧
      (a.indicesOf (isForwardTo conditionPlace)).Pairwise (· < ·) ∧
      (∀ b c : Attempt, (b = a ∨ b.Within a) → c.Within b →
        b.parser = .forward conditionPlace → c.parser = .forward conditionPlace →
        b.index < c.index) ∧
      (0 ≤ i → i ≤ tokens.size →
        ∀ k ∈ a.indicesOf (isForwardTo conditionPlace), i ≤ k ∧ k ≤ tokens.size) ∧
      (i < 0 ∨ tokens.size < i → a.indicesOf (isForwardTo conditionPlace) = [i]) ∧
      ∀ k, a.trace.count (.trying "condition" k) ≤ 1 := by
  obtain ⟨a, ha, hreads⟩ := Production.run_reads .condition tokens i
  have hforward := condition_entered marksEntries_forward _ i a ha
  have hname := condition_entered marksEntries_name _ i a ha
  obtain ⟨rest, hindices, hrising⟩ := hforward.rising
  obtain ⟨restNamed, hnamed, hrisingNamed⟩ := hname.rising
  have hjumpless := Production.condition.jumpless_parser
  refine ⟨a, ha, fun n hn => attempt_mono hn ha, hreads.1, ?_, ?_, ?_, ?_, ?_⟩
  · rw [hindices]
    exact hrising.cons.sorted
  · intro b c hb hc hparser hparser'
    have hrun : attempt store tokens (budget tokens) b.parser b.index = some b := by
      rcases hb with rfl | hb
      · exact ((eq_iff_of_attempt ha).mp rfl).1
      · exact attempt_of_within ha hb
    rw [hparser] at hrun
    exact index_lt_of_within hrun hc hparser'
  · intro h₀ hsize k hk
    have honward : Onward tokens i k := by
      obtain ⟨b, -, rfl | hwithin, rfl⟩ := Attempt.mem_indicesOf_iff.mp hk
      · rw [((eq_iff_of_attempt ha).mp rfl).2.2]
        exact .refl tokens i
      · exact (reaches_of_within ha hwithin).onward jumpless_store hjumpless
    exact ⟨honward.le, honward.le_size h₀ hsize⟩
  · intro hrange
    refine hforward.alone fun t ht => ?_
    have := (Onward.succ ht).stays hrange
    omega
  · intro k
    rw [Attempt.count_trying, hnamed]
    exact List.nodup_iff_count_le_one.mp (hrisingNamed.cons.sorted.imp fun h => Int.ne_of_lt h) k

end Grammar

end Conditions
