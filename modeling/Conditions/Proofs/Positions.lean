import Conditions.Lexing.Scanner
import Conditions.Proofs.Tiling
import Mathlib.Data.List.DropRight

/-!
# Positions are exact

The line and the column of a position follow from its offset and the text. A scanner begins at an
exact position, and whatever it does moves it over a part of its source, so its position stays
exact. Lexing the whole source is a run of single steps from the start; what is found on the way
stands where its rule started to read.
-/

namespace Conditions

namespace Position

/-- The line and the column are those of the offset in the text: lines are counted by the line feeds
before it, columns by the characters behind the last of them. -/
structure IsExact (p : Position) (text : List Char) : Prop where
  nonneg : 0 ≤ p.offset
  le_length : p.offset ≤ text.length
  line : p.line = 1 + (text.take p.offset.toNat).count '\n'
  column : p.column = 1 + ((text.take p.offset.toNat).rtakeWhile inLine).length

theorem after_concat (p : Position) (cs : List Char) (c : Char) :
    p.after (cs ++ [c]) = (p.after cs).advance c := by
  rw [after_append, after_cons, after_nil]

theorem advance_newline (p : Position) : p.advance '\n' = ⟨p.offset + 1, p.line + 1, 1⟩ := by
  simp [advance]

theorem advance_of_ne {c : Char} (hc : c ≠ '\n') (p : Position) :
    p.advance c = ⟨p.offset + 1, p.line, p.column + 1⟩ := by
  rw [advance, if_neg hc]

theorem line_after (p : Position) (cs : List Char) :
    (p.after cs).line = p.line + cs.count '\n' := by
  induction cs using List.reverseRecOn with
  | nil => simp
  | append_singleton cs c ih =>
    rw [after_concat]
    by_cases hc : c = '\n'
    · rw [hc, advance_newline, ih, List.count_append, List.count_singleton_self]
      push_cast
      omega
    · rw [advance_of_ne hc, ih, List.count_append, List.count_singleton, beq_false_of_ne hc]
      simp

theorem column_start_after (cs : List Char) :
    (start.after cs).column = 1 + (cs.rtakeWhile inLine).length := by
  induction cs using List.reverseRecOn with
  | nil => rfl
  | append_singleton cs c ih =>
    rw [after_concat, List.rtakeWhile_concat]
    by_cases hc : c = '\n'
    · rw [hc, advance_newline]
      rfl
    · have hline : inLine c = true := by simp [inLine, hc]
      rw [advance_of_ne hc, ih, if_pos hline, List.length_append, List.length_singleton]
      push_cast
      omega

/-- Within a line only the offset and the column change. -/
theorem after_of_not_mem {cs : List Char} (h : '\n' ∉ cs) (p : Position) :
    p.after cs = ⟨p.offset + cs.length, p.line, p.column + cs.length⟩ := by
  induction cs generalizing p with
  | nil => simp
  | cons c cs ih =>
    rw [List.mem_cons, not_or] at h
    rw [after_cons, advance_of_ne (Ne.symm h.1), ih h.2, List.length_cons]
    push_cast
    simp only [mk.injEq, true_and]
    omega

theorem isExact_after (before rest : List Char) : (start.after before).IsExact (before ++ rest) := by
  have hoffset : (start.after before).offset = before.length := by
    rw [offset_after]
    exact Int.zero_add _
  have htake : (before ++ rest).take (start.after before).offset.toNat = before := by
    rw [hoffset, Int.toNat_natCast, List.take_left]
  constructor
  · omega
  · rw [hoffset, List.length_append]
    omega
  · rw [htake, line_after]
    rfl
  · rw [htake, column_start_after]

end Position

/-! ## Single steps of a scanner -/

namespace Scanner

/-- The scanner stands in its source between the two parts. -/
structure Between (s : Scanner) (before rest : List Char) : Prop where
  source : s.source = before ++ rest
  position : s.position = Position.start.after before

/-- Something that a scanner is told to do. -/
inductive Operation where
  /-- Lex the whole source. -/
  | lexAll
  /-- Read the token at the position. -/
  | next
  /-- Skip blanks and comments. -/
  | skip
  /-- Move on by single characters. -/
  | advance (n : Int)
  /-- Read the character behind a backslash. -/
  | escape
  deriving DecidableEq

/-- The tokens and the errors that are found on the way. -/
structure Findings where
  tokens : List Token
  errors : List LexicalError

namespace Findings

/-- Nothing is found. -/
def none : Findings := ⟨[], []⟩

/-- What is found in reading a token. -/
def ofResult : Except ScanError Token → Findings
  | .ok t => ⟨[t], []⟩
  | .error (.lexical e) => ⟨[], [e]⟩
  | .error _ => none

/-- What is found first, and what is found then. -/
def append (found found' : Findings) : Findings :=
  ⟨found.tokens ++ found'.tokens, found.errors ++ found'.errors⟩

end Findings

/-- Does something, and tells what is found. Lexing the whole source finds all that it collects,
also where it breaks off. -/
def perform (s : Scanner) : Operation → Scanner × Findings
  | .lexAll => (s.lexAll.1, ⟨s.lexAll.1.tokens, s.lexAll.1.errors⟩)
  | .next => (s.next.1, .ofResult s.next.2)
  | .skip => (s.skip.1, .none)
  | .advance n => ((s.advance n).1, .none)
  | .escape => (s.escape.1, .none)

/-- Does one thing after the other. -/
def performAll (s : Scanner) : List Operation → Scanner × Findings
  | [] => (s, .none)
  | op :: ops =>
    let done := s.perform op
    let others := done.1.performAll ops
    (others.1, done.2.append others.2)

section
variable {s : Scanner} {before rest : List Char}

theorem between_ofSource (source filename : String) :
    (ofSource source filename).Between [] source.toList :=
  ⟨rfl, rfl⟩

theorem Between.isExact (h : s.Between before rest) : s.position.IsExact s.source := by
  rw [h.source, h.position]
  exact Position.isExact_after before rest

theorem Between.offset (h : s.Between before rest) : s.position.offset = before.length := by
  rw [h.position, Position.offset_after]
  exact Int.zero_add _

theorem Between.remaining (h : s.Between before rest) : s.remaining? = some rest := by
  have hnonneg : ¬ s.position.offset < 0 := by
    rw [h.offset]
    omega
  have hindex : s.index s.position.offset = before.length := by
    rw [index, if_neg hnonneg, h.offset, Int.toNat_natCast]
  simp only [remaining?, if_pos (Int.not_lt.1 hnonneg), hindex, h.source, List.drop_left]

theorem Between.move {gap rest' : List Char} (h : s.Between before (gap ++ rest')) :
    (s.move gap).Between (before ++ gap) rest' := by
  constructor
  · rw [Scanner.move, h.source, List.append_assoc]
  · rw [Scanner.move, h.position, Position.after_append]

/-- Whatever is done but lexing the whole source moves the scanner over a part of what is left. -/
theorem perform_moves (h : s.Between before rest) {op : Operation} (hop : op ≠ .lexAll) :
    ∃ gap rest', rest = gap ++ rest' ∧ (s.perform op).1 = s.move gap := by
  have hstay : ∃ gap rest', rest = gap ++ rest' ∧ s = s.move gap := ⟨[], rest, rfl, rfl⟩
  have htake : ∀ n, ∃ gap rest', rest = gap ++ rest' ∧ s.move (rest.take n) = s.move gap :=
    fun n => ⟨_, _, (List.take_append_drop n rest).symm, rfl⟩
  cases op with
  | lexAll => exact absurd rfl hop
  | next =>
    simp only [perform, next, h.remaining]
    cases rest with
    | nil => exact hstay
    | cons c cs => exact htake _
  | skip =>
    simp only [perform, skip, h.remaining]
    exact htake _
  | advance n =>
    simp only [perform, advance, h.remaining]
    by_cases hn : n ≤ 0
    · rw [if_pos hn]
      exact hstay
    · rw [if_neg hn]
      exact htake _
  | escape =>
    simp only [perform, escape, h.remaining]
    cases rest with
    | nil => exact hstay
    | cons c cs => exact htake 1

/-! ## What a single step finds -/

/-- The token is read where it says: its lexeme is the text there. -/
structure ReadsAt (s : Scanner) (p : Position) (t : Token) : Prop where
  exact_position : p.IsExact s.source
  location : t.location = some (p.locate s.filename)
  lexeme : t.lexeme.toList <+: s.source.drop p.offset.toNat
  read : (s.goto p).next.2 = .ok t

/-- The error is that of reading where it says. -/
structure FailsAt (s : Scanner) (p : Position) (e : LexicalError) : Prop where
  exact_position : p.IsExact s.source
  location : e.location = p.locate s.filename
  read : (s.goto p).next.2 = .error (.lexical e)

theorem next_snd_congr {s' : Scanner} (hsource : s.source = s'.source)
    (hfilename : s.filename = s'.filename) (p : Position) :
    (s.goto p).next.2 = (s'.goto p).next.2 := by
  obtain ⟨source, filename, position, tokens, errors⟩ := s
  obtain ⟨source', filename', position', tokens', errors'⟩ := s'
  cases hsource
  cases hfilename
  have hremaining : (Scanner.mk source filename p tokens errors).remaining? =
      (Scanner.mk source filename p tokens' errors').remaining? := rfl
  simp only [goto, next, hremaining]
  cases (Scanner.mk source filename p tokens' errors').remaining? with
  | none => rfl
  | some cs => cases cs <;> rfl

/-- What is read at a position depends on the source and its name only. -/
theorem ReadsAt.congr {s' : Scanner} {p : Position} {t : Token} (h : s.ReadsAt p t)
    (hsource : s.source = s'.source) (hfilename : s.filename = s'.filename) : s'.ReadsAt p t where
  exact_position := hsource ▸ h.exact_position
  location := hfilename ▸ h.location
  lexeme := hsource ▸ h.lexeme
  read := (next_snd_congr hsource hfilename p) ▸ h.read

theorem FailsAt.congr {s' : Scanner} {p : Position} {e : LexicalError} (h : s.FailsAt p e)
    (hsource : s.source = s'.source) (hfilename : s.filename = s'.filename) : s'.FailsAt p e where
  exact_position := hsource ▸ h.exact_position
  location := hfilename ▸ h.location
  read := (next_snd_congr hsource hfilename p) ▸ h.read

theorem Between.next_eq {c : Char} {cs : List Char} (h : s.Between before (c :: cs)) :
    s.next = (s.move (scan c cs).written, match (scan c cs).reading with
      | .token kind payload => .ok ⟨kind, String.ofList (scan c cs).written, payload,
          some (s.position.locate s.filename)⟩
      | .fault fault => .error (.lexical ⟨fault, s.position.locate s.filename⟩)
      | .oversized e => .error (.oversized e)) := by
  have hnonneg : ¬ s.position.offset < 0 := by
    rw [h.offset]
    omega
  have htake : (c :: cs).take (scan c cs).written.length = (scan c cs).written := by
    rw [← scan_written_append_rest c cs, List.take_left]
  cases hreading : (scan c cs).reading <;>
    simp only [next, h.remaining, if_neg hnonneg, htake, lexeme, decide_eq_false hnonneg,
      Bool.and_false, Bool.false_eq_true, if_false, hreading]

/-- What reading a token finds stands at the position of the scanner. -/
theorem Between.finds_next (h : s.Between before rest) :
    (∀ t ∈ (s.perform .next).2.tokens, s.ReadsAt s.position t) ∧
    (∀ e ∈ (s.perform .next).2.errors, s.FailsAt s.position e) := by
  have hexact := h.isExact
  cases rest with
  | nil =>
    simp only [perform, next, h.remaining, noCharacter, ScanError.ofOffset]
    split <;> exact ⟨List.forall_mem_nil _, List.forall_mem_nil _⟩
  | cons c cs =>
    have hread : (s.goto s.position).next.2 = s.next.2 := rfl
    have hdrop : s.source.drop s.position.offset.toNat = c :: cs := by
      rw [h.offset, Int.toNat_natCast, h.source, List.drop_left]
    simp only [perform]
    rw [h.next_eq] at hread ⊢
    cases hreading : (scan c cs).reading with
    | token kind payload =>
      rw [hreading] at hread
      refine ⟨fun t ht => ?_, List.forall_mem_nil _⟩
      cases List.mem_singleton.1 ht
      refine ⟨hexact, rfl, ?_, hread⟩
      rw [hdrop, String.toList_ofList]
      exact ⟨_, scan_written_append_rest c cs⟩
    | fault fault =>
      rw [hreading] at hread
      refine ⟨List.forall_mem_nil _, fun e he => ?_⟩
      cases List.mem_singleton.1 he
      exact ⟨hexact, rfl, hread⟩
    | oversized e => exact ⟨List.forall_mem_nil _, List.forall_mem_nil _⟩

theorem Between.finds (h : s.Between before rest) {op : Operation} (hop : op ≠ .lexAll) :
    (∀ t ∈ (s.perform op).2.tokens, s.ReadsAt s.position t) ∧
    (∀ e ∈ (s.perform op).2.errors, s.FailsAt s.position e) := by
  cases op with
  | lexAll => exact absurd rfl hop
  | next => exact h.finds_next
  | skip => exact ⟨List.forall_mem_nil _, List.forall_mem_nil _⟩
  | advance n => exact ⟨List.forall_mem_nil _, List.forall_mem_nil _⟩
  | escape => exact ⟨List.forall_mem_nil _, List.forall_mem_nil _⟩

/-! ## Runs of steps -/

/-- A run of steps moves the scanner over a part of what is left, and all that it finds stands where
it says. -/
theorem performAll_moves (h : s.Between before rest) {ops : List Operation}
    (hops : .lexAll ∉ ops) :
    ∃ gap rest', rest = gap ++ rest' ∧ (s.performAll ops).1 = s.move gap ∧
      (∀ t ∈ (s.performAll ops).2.tokens, ∃ p, s.ReadsAt p t) ∧
      (∀ e ∈ (s.performAll ops).2.errors, ∃ p, s.FailsAt p e) := by
  induction ops generalizing s before rest with
  | nil => exact ⟨[], rest, rfl, rfl, List.forall_mem_nil _, List.forall_mem_nil _⟩
  | cons op ops ih =>
    rw [List.mem_cons, not_or] at hops
    obtain ⟨gap, rest', rfl, hmove⟩ := perform_moves h (Ne.symm hops.1)
    obtain ⟨htokens, herrors⟩ := h.finds (Ne.symm hops.1)
    obtain ⟨gap', rest'', rfl, hmove', htokens', herrors'⟩ := ih h.move hops.2
    refine ⟨gap ++ gap', rest'', (List.append_assoc ..).symm, ?_, ?_, ?_⟩
    · rw [performAll, hmove, hmove', move, move, move, Position.after_append]
    · rw [performAll, hmove]
      intro t ht
      rcases List.mem_append.1 ht with ht | ht
      · exact ⟨_, htokens t ht⟩
      · obtain ⟨p, hp⟩ := htokens' t ht
        exact ⟨p, hp.congr rfl rfl⟩
    · rw [performAll, hmove]
      intro e he
      rcases List.mem_append.1 he with he | he
      · exact ⟨_, herrors e he⟩
      · obtain ⟨p, hp⟩ := herrors' e he
        exact ⟨p, hp.congr rfl rfl⟩

theorem Findings.append_none (found : Findings) : found.append .none = found := by
  simp [append, none]

theorem Findings.append_assoc (a b c : Findings) :
    (a.append b).append c = a.append (b.append c) := by
  simp [append]

theorem performAll_append (ops ops' : List Operation) :
    s.performAll (ops ++ ops') =
      (((s.performAll ops).1.performAll ops').1,
        (s.performAll ops).2.append ((s.performAll ops).1.performAll ops').2) := by
  induction ops generalizing s with
  | nil => rfl
  | cons op ops ih => simp only [List.cons_append, performAll, ih, Findings.append_assoc]

/-! ## Lexing the whole source step by step -/

/-- Layout at the front of a text only moves the position at which lexing goes on. -/
theorem skipLayout_spec (cs : List Char) :
    ∃ gap, cs = gap ++ skipLayout cs ∧
      (∀ filename p, Lexing.ofPieces filename p (pieces cs) =
        Lexing.ofPieces filename (p.after gap) (pieces (skipLayout cs))) ∧
      ∀ c ds, skipLayout cs = c :: ds → Text.isBlank c = false ∧ c ≠ ';' := by
  induction cs using skipLayout.induct with
  | case1 =>
    rw [skipLayout]
    exact ⟨[], rfl, fun _ _ => rfl, nofun⟩
  | case2 c cs hblank ih =>
    obtain ⟨gap, hgap, hpieces, hhead⟩ := ih
    rw [skipLayout, if_pos hblank]
    refine ⟨c :: gap, by rw [List.cons_append, ← hgap], fun filename p => ?_, hhead⟩
    rw [pieces, Piece.next_blank hblank]
    exact hpieces filename (p.advance c)
  | case3 cs hblank ih =>
    obtain ⟨gap, hgap, hpieces, hhead⟩ := ih
    have hline : ∀ c ∈ cs.takeWhile inLine, inLine c := List.all_eq_true.1 List.all_takeWhile
    have hnext := Piece.next_comment hline (stopsAt_dropWhile cs)
    rw [List.takeWhile_append_dropWhile] at hnext
    rw [skipLayout, if_neg hblank, if_pos rfl]
    refine ⟨';' :: cs.takeWhile inLine ++ gap, ?_, fun filename p => ?_, hhead⟩
    · rw [List.append_assoc, ← hgap, List.cons_append, List.takeWhile_append_dropWhile]
    · rw [pieces, hnext, Position.after_append]
      exact hpieces filename _
  | case4 c cs hblank hcomment =>
    rw [skipLayout, if_neg hblank, if_neg hcomment]
    refine ⟨[], rfl, fun _ _ => rfl, fun d ds h => ?_⟩
    cases h
    exact ⟨Bool.eq_false_iff.2 hblank, hcomment⟩

theorem Between.perform_skip {gap rest' : List Char} (h : s.Between before (gap ++ rest'))
    (hgap : skipLayout (gap ++ rest') = rest') : s.perform .skip = (s.move gap, .none) := by
  have hlength : (gap ++ rest').length - rest'.length = gap.length := by
    rw [List.length_append, Nat.add_sub_cancel]
  simp only [perform, skip, h.remaining, hgap, hlength, List.take_left]

/-- The lexeme at the position is read in one step. Where no rule reads anything, another step
passes over the character. -/
theorem Between.exists_round {c : Char} {cs : List Char} (h : s.Between before (c :: cs))
    (hblank : Text.isBlank c = false) (hcomment : c ≠ ';') :
    ∃ ops w rest', .lexAll ∉ ops ∧ c :: cs = w ++ rest' ∧ w ≠ [] ∧
      Piece.next c cs = (.lexeme (scan c cs).reading w, rest') ∧
      (∀ kind payload, (scan c cs).reading = .token kind payload → (scan c cs).written = w) ∧
      s.performAll ops = (s.move w, .ofResult s.next.2) := by
  have hnext : s.next.1 = s.move (scan c cs).written := by rw [h.next_eq]
  by_cases hw : (scan c cs).written = []
  · refine ⟨[.next, .advance 1], [c], cs, by simp, rfl, List.cons_ne_nil c [], ?_, ?_, ?_⟩
    · simp only [Piece.next, hblank, if_neg hcomment, hw, List.isEmpty_nil, Bool.false_eq_true,
        if_false, if_true]
    · intro kind payload htoken
      rw [reading_of_written_eq_nil hw] at htoken
      cases htoken
    · have hadvance : (s.move []).advance 1 = (s.move [c], .ok ()) := by
        have hmove : s.move [] = s := rfl
        simp only [hmove, advance, h.remaining]
        rfl
      simp only [performAll, perform, hnext, hw, hadvance, Findings.append_none]
  · refine ⟨[.next], _, _, by simp, (scan_written_append_rest c cs).symm, hw,
      Piece.next_scan hblank hcomment hw, fun _ _ _ => rfl, ?_⟩
    simp only [performAll, perform, hnext, Findings.append_none]

/-- Lexing what is left is a run of steps. -/
theorem Between.exists_steps (h : s.Between before rest) :
    ∃ ops, .lexAll ∉ ops ∧
      (s.performAll ops).1.position =
        (Lexing.ofPieces s.filename s.position (pieces rest)).stop ∧
      (s.performAll ops).2.tokens =
        (Lexing.ofPieces s.filename s.position (pieces rest)).tokens ∧
      (s.performAll ops).2.errors =
        (Lexing.ofPieces s.filename s.position (pieces rest)).errors := by
  induction hn : rest.length using Nat.strong_induction_on generalizing s before rest with
  | _ n ih =>
    obtain ⟨gap, hgap, hpieces, hhead⟩ := skipLayout_spec rest
    rw [hpieces]
    rw [hgap] at h
    have hskip := h.perform_skip (by rw [← hgap])
    have hbehind := h.move
    cases hleft : skipLayout rest with
    | nil =>
      refine ⟨[.skip], by simp, ?_⟩
      rw [performAll, hskip, pieces]
      exact ⟨rfl, rfl, rfl⟩
    | cons c cs =>
      rw [hleft] at hbehind
      obtain ⟨hblank, hcomment⟩ := hhead c cs hleft
      obtain ⟨ops, w, rest', hops, hw, hne, hnext, htoken, hround⟩ :=
        hbehind.exists_round hblank hcomment
      have hread := hbehind.next_eq
      rw [hw] at hbehind
      have hshorter : rest'.length < n := by
        have hpos := List.length_pos_iff.2 hne
        rw [← hn, hgap, hleft, hw, List.length_append, List.length_append]
        omega
      obtain ⟨ops', hops', hstop, htokens, herrors⟩ := ih _ hshorter hbehind.move rfl
      have hround : s.performAll (.skip :: ops) =
          ((s.move gap).move w, .ofResult (s.move gap).next.2) := by
        rw [performAll, hskip, hround]
        rfl
      rw [pieces, hnext]
      cases hreading : (scan c cs).reading with
      | token kind payload =>
        rw [hreading, htoken kind payload hreading] at hread
        refine ⟨.skip :: ops ++ ops', by simp [hops, hops'], ?_⟩
        rw [performAll_append, hround, hread]
        exact ⟨hstop, congrArg (List.cons _) htokens, herrors⟩
      | fault fault =>
        rw [hreading] at hread
        refine ⟨.skip :: ops ++ ops', by simp [hops, hops'], ?_⟩
        rw [performAll_append, hround, hread]
        exact ⟨hstop, htokens, congrArg (List.cons _) herrors⟩
      | oversized e =>
        rw [hreading] at hread
        refine ⟨.skip :: ops, by simp [hops], ?_⟩
        rw [hround, hread]
        exact ⟨rfl, rfl, rfl⟩

end

/-! ## Everything a scanner does -/

section
variable {s : Scanner} {source filename : String}

/-- The scanner stands somewhere in the source with this name. -/
structure Scans (s : Scanner) (source filename : String) : Prop where
  source : s.source = source.toList
  filename : s.filename = filename
  between : ∃ before rest, s.Between before rest

/-- Lexing the whole source is a run of steps from its start. -/
theorem Scans.lexAll_eq_steps (h : s.Scans source filename) :
    ∃ steps, .lexAll ∉ steps ∧
      (s.perform .lexAll).1.position =
        ((ofSource source filename).performAll steps).1.position ∧
      (s.perform .lexAll).2 = ((ofSource source filename).performAll steps).2 := by
  obtain ⟨steps, hsteps, hstop, htokens, herrors⟩ :=
    (between_ofSource source filename).exists_steps
  refine ⟨steps, hsteps, ?_, ?_⟩
  · rw [hstop]
    simp only [perform, lexAll, h.source, h.filename]
    rfl
  · simp only [perform, lexAll, h.source, h.filename]
    exact Findings.mk.injEq .. ▸ ⟨htokens.symm, herrors.symm⟩

theorem Scans.perform (h : s.Scans source filename) (op : Operation) :
    (s.perform op).1.Scans source filename := by
  obtain ⟨before, rest, hbetween⟩ := h.between
  by_cases hop : op = .lexAll
  · obtain ⟨steps, hsteps, hstop, -⟩ := h.lexAll_eq_steps
    obtain ⟨gap, rest', hrest, hmove, -⟩ :=
      performAll_moves (between_ofSource source filename) hsteps
    rw [hmove] at hstop
    rw [hop]
    exact ⟨h.source, h.filename, gap, rest', h.source.trans hrest, hstop⟩
  · obtain ⟨gap, rest', rfl, hmove⟩ := perform_moves hbetween hop
    rw [hmove]
    exact ⟨h.source, h.filename, _, _, hbetween.move⟩

theorem Scans.performAll (h : s.Scans source filename) (ops : List Operation) :
    (s.performAll ops).1.Scans source filename := by
  induction ops generalizing s with
  | nil => exact h
  | cons op ops ih => exact ih (h.perform op)

theorem Scans.isExact (h : s.Scans source filename) : s.position.IsExact source.toList := by
  obtain ⟨hsource, -, before, rest, hbetween⟩ := h
  exact hsource ▸ hbetween.isExact

theorem Scans.offset_le (h : s.Scans source filename) {op : Operation} (hop : op ≠ .lexAll) :
    s.position.offset ≤ (s.perform op).1.position.offset := by
  obtain ⟨before, rest, hbetween⟩ := h.between
  obtain ⟨gap, rest', -, hmove⟩ := perform_moves hbetween hop
  have hposition : (s.perform op).1.position = s.position.after gap :=
    congrArg Scanner.position hmove
  rw [hposition, Position.offset_after]
  omega

/-- All that is found stands where it says, and in a single step this is where the step began. -/
theorem Scans.finds (h : s.Scans source filename) (op : Operation) :
    (∀ t ∈ (s.perform op).2.tokens, ∃ p, (ofSource source filename).ReadsAt p t ∧
      (op ≠ .lexAll → p = s.position)) ∧
    (∀ e ∈ (s.perform op).2.errors, ∃ p, (ofSource source filename).FailsAt p e ∧
      (op ≠ .lexAll → p = s.position)) := by
  by_cases hop : op = .lexAll
  · subst hop
    obtain ⟨steps, hsteps, -, hfound⟩ := h.lexAll_eq_steps
    obtain ⟨-, -, -, -, htokens, herrors⟩ :=
      performAll_moves (between_ofSource source filename) hsteps
    rw [← hfound] at htokens herrors
    refine ⟨fun t ht => ?_, fun e he => ?_⟩
    · obtain ⟨p, hp⟩ := htokens t ht
      exact ⟨p, hp, fun hne => absurd rfl hne⟩
    · obtain ⟨p, hp⟩ := herrors e he
      exact ⟨p, hp, fun hne => absurd rfl hne⟩
  · obtain ⟨before, rest, hbetween⟩ := h.between
    obtain ⟨htokens, herrors⟩ := hbetween.finds hop
    exact ⟨fun t ht => ⟨_, (htokens t ht).congr h.source h.filename, fun _ => rfl⟩,
      fun e he => ⟨_, (herrors e he).congr h.source h.filename, fun _ => rfl⟩⟩

end

/-- Whatever a scanner is told to do from the start of a source, its position stays exact. The
position goes back only to lex the whole source, which is a run of other steps from the start and
finds what they find. Every token and every error that is found carries an exact position. It is
what reading a token at that position finds, and the lexeme of a token is the text there. In a
single step this is the position before the step. -/
theorem positions_exact (source filename : String) (ops : List Operation) (op : Operation) :
    let fresh := ofSource source filename
    let s := (fresh.performAll ops).1
    let s' := (s.perform op).1
    let found := (s.perform op).2
    s'.position.IsExact source.toList ∧
    (op ≠ .lexAll → s.position.offset ≤ s'.position.offset) ∧
    (op = .lexAll → ∃ steps, .lexAll ∉ steps ∧
      s'.position = (fresh.performAll steps).1.position ∧ found = (fresh.performAll steps).2) ∧
    (∀ t ∈ found.tokens, ∃ p, fresh.ReadsAt p t ∧ (op ≠ .lexAll → p = s.position)) ∧
    (∀ e ∈ found.errors, ∃ p, fresh.FailsAt p e ∧ (op ≠ .lexAll → p = s.position)) := by
  intro fresh s s' found
  have hfresh : fresh.Scans source filename :=
    ⟨rfl, rfl, _, _, between_ofSource source filename⟩
  have hs : s.Scans source filename := hfresh.performAll ops
  refine ⟨(hs.perform op).isExact, hs.offset_le, fun hop => ?_, hs.finds op⟩
  subst hop
  exact hs.lexAll_eq_steps

end Scanner

end Conditions
