import Conditions.Lexing.Piece
import Conditions.Proofs.Literals

/-!
# Pieces in their place

What each kind of piece looks like, and what must follow it. A text falls into pieces that fit in
only one way, and the lexer finds it: what it takes from the front of a text fits, and nothing else
does.
-/

namespace Conditions

/-! ## Characters -/

theorem isBlank_of_graphic {c : Char} (h : 0x21 ≤ c.toNat) (h' : c.toNat ≤ 0x7E) :
    Text.isBlank c = false := by
  unfold Text.isBlank
  rw [Text.blankRanges, Text.inRanges, if_neg (by omega), if_neg (by omega), Text.inRanges,
    if_neg (by omega), if_neg (by omega), Text.inRanges, if_pos (by omega)]

theorem toNat_of_isDigit {c : Char} (h : c.isDigit) : 0x30 ≤ c.toNat ∧ c.toNat ≤ 0x39 := by
  simpa [Char.isDigit, UInt32.le_iff_toNat_le] using h

theorem toNat_of_isWordStart {c : Char} (h : isWordStart c) : 0x41 ≤ c.toNat ∧ c.toNat ≤ 0x7A := by
  rcases Bool.or_eq_true_iff.1 h with halpha | hunderscore
  · rcases Bool.or_eq_true_iff.1 halpha with hupper | hlower
    · have hrange : 0x41 ≤ c.toNat ∧ c.toNat ≤ 0x5A := of_decide_eq_true hupper
      omega
    · obtain ⟨hle, hle'⟩ := Bool.and_eq_true_iff.1 hlower
      have ha : 0x61 ≤ c.toNat := of_decide_eq_true hle
      have hz : c.toNat ≤ 0x7A := of_decide_eq_true hle'
      omega
  · rw [of_decide_eq_true hunderscore]
    decide

theorem isWordPart_of_isWordStart {c : Char} (h : isWordStart c) : isWordPart c := by
  unfold isWordStart at h
  unfold isWordPart Char.isAlphanum
  rcases Bool.or_eq_true_iff.1 h with h | h <;> simp [h]

theorem lookup_delimiters (c : Char) :
    delimiters.lookup c =
      if c = '(' then some .leftParen else if c = ')' then some .rightParen else none := by
  simp only [delimiters, List.lookup_cons, List.lookup_nil]
  by_cases h : c = '('
  · simp [h]
  · by_cases h' : c = ')'
    · simp [h']
    · simp [h, h', beq_false_of_ne]

theorem lookup_delimiters_eq_none {c : Char} (h : 0x29 < c.toNat) :
    delimiters.lookup c = none := by
  have hleft : c ≠ '(' := by
    intro heq
    subst heq
    exact absurd h (by decide)
  have hright : c ≠ ')' := by
    intro heq
    subst heq
    exact absurd h (by decide)
  rw [lookup_delimiters, if_neg hleft, if_neg hright]

/-- A digit begins a number and nothing else, and so does a minus sign. -/
theorem Numeral.read?_eq_none {c : Char} {cs : List Char} (hdigit : c.isDigit = false)
    (hminus : c ≠ '-') : read? (c :: cs) = none := by
  rw [read?]
  · simp [readDigits?, hdigit]
  · intro ds h
    exact hminus (List.cons.inj h).1

theorem Numeral.head_written {n : Numeral} (hn : n.WellFormed) :
    ∃ c cs, n.written = c :: cs ∧ (c = '-' ∨ c.isDigit) := by
  obtain ⟨d, ds, hwhole⟩ := List.exists_cons_of_ne_nil hn.1
  rw [written_eq]
  cases n.negative with
  | true => exact ⟨'-', _, rfl, Or.inl rfl⟩
  | false =>
    exact ⟨d, ds ++ n.fractionText, by simp [hwhole], Or.inr (hn.2.1 d (by simp [hwhole]))⟩

/-! ## The rules of the lexer -/

section
variable {c : Char} {cs rest : List Char}

theorem scan_numeral {n : Numeral} (hc : delimiters.lookup c = none)
    (h : Numeral.read? (c :: cs) = some (n, rest)) : scan c cs = ⟨n.reading, n.written, rest⟩ := by
  simp only [scan, hc, h]

theorem scan_string {b : StringBody} (h : StringBody.read? cs = some b) :
    scan quoteMark cs =
      ⟨.token .string (.text (String.ofList b.meant)), quoteMark :: b.written ++ [quoteMark],
        b.rest⟩ := by
  have hnone : Numeral.read? (quoteMark :: cs) = none := Numeral.read?_eq_none rfl (by decide)
  have hlookup : delimiters.lookup quoteMark = none := rfl
  simp only [scan, hlookup, hnone, if_true, h]

theorem scan_unclosed (h : StringBody.read? cs = none) :
    scan quoteMark cs = ⟨.fault .unterminatedString, quoteMark :: cs, []⟩ := by
  have hnone : Numeral.read? (quoteMark :: cs) = none := Numeral.read?_eq_none rfl (by decide)
  have hlookup : delimiters.lookup quoteMark = none := rfl
  simp only [scan, hlookup, hnone, if_true, h]

theorem scan_word (hc : isWordStart c) :
    scan c cs =
      ⟨readWord (String.ofList (c :: cs.takeWhile isWordPart)), c :: cs.takeWhile isWordPart,
        cs.dropWhile isWordPart⟩ := by
  have hrange := toNat_of_isWordStart hc
  have hlookup : delimiters.lookup c = none := lookup_delimiters_eq_none (by omega)
  have hdigit : c.isDigit = false := by
    refine Bool.eq_false_iff.2 fun h => ?_
    have := toNat_of_isDigit h
    omega
  have hminus : c ≠ '-' := by
    intro heq
    subst heq
    exact absurd hrange (by decide)
  have hnone : Numeral.read? (c :: cs) = none := Numeral.read?_eq_none hdigit hminus
  have hquote : c ≠ quoteMark := by
    intro heq
    subst heq
    exact absurd hrange (by decide)
  simp only [scan, hlookup, hnone, if_neg hquote, hc, if_true]

/-- Only where no lexeme begins does a rule read nothing. -/
theorem reading_of_written_eq_nil (h : (scan c cs).written = []) :
    (scan c cs).reading = .fault (.invalidCharacter (String.singleton c)) := by
  unfold scan at h ⊢
  split
  · next hc => simp [hc] at h
  · next hc =>
    split
    · next n rest hread =>
      obtain ⟨d, ds, hw, -⟩ := Numeral.head_written (Numeral.wellFormed_of_read? hread).1
      simp [hc, hread, hw] at h
    · next hread =>
      by_cases hquote : c = quoteMark
      · simp only [hc, hread, if_pos hquote] at h
        split at h <;> simp at h
      · by_cases hword : isWordStart c
        · simp [hc, hread, hquote, hword] at h
        · simp only [if_neg hquote, if_neg hword]

theorem Piece.next_scan (hblank : Text.isBlank c = false) (hcomment : c ≠ ';')
    (h : (scan c cs).written ≠ []) :
    next c cs = (.lexeme (scan c cs).reading (scan c cs).written, (scan c cs).rest) := by
  have hempty : (scan c cs).written.isEmpty = false := by
    rwa [← Bool.not_eq_true, List.isEmpty_iff]
  simp only [next, hblank, if_neg hcomment, hempty, Bool.false_eq_true, if_false]

end

/-! ## Pieces that fit -/

/-- No lexeme, comment or blank begins with the character in front of the text. -/
structure BeginsNothing (c : Char) (rest : List Char) : Prop where
  blank : Text.isBlank c = false
  comment : c ≠ ';'
  delimiter : delimiters.lookup c = none
  number : Numeral.read? (c :: rest) = none
  string : c ≠ quoteMark
  word : isWordStart c = false

/-- The piece has its shape, and goes on no further in front of the text. -/
inductive Piece.Fits : Piece → List Char → Prop where
  | blank {c : Char} {rest : List Char} : Text.isBlank c → Fits (.blank c) rest
  | comment {body rest : List Char} : (∀ c ∈ body, inLine c) → StopsAt inLine rest →
      Fits (.comment (';' :: body)) rest
  | delimiter {c : Char} {kind : TokenKind} {rest : List Char} :
      delimiters.lookup c = some kind → Fits (.lexeme (.token kind .absent) [c]) rest
  | numeral {n : Numeral} {rest : List Char} : n.WellFormed → n.EndsBefore rest →
      Fits (.lexeme n.reading n.written) rest
  | string {w meant rest : List Char} : StringText w meant →
      Fits (.lexeme (.token .string (.text (String.ofList meant)))
        (quoteMark :: w ++ [quoteMark])) rest
  | unclosed {w : List Char} : Unclosed w →
      Fits (.lexeme (.fault .unterminatedString) (quoteMark :: w)) []
  | word {c : Char} {cs rest : List Char} : isWordStart c → (∀ d ∈ cs, isWordPart d) →
      StopsAt isWordPart rest →
      Fits (.lexeme (readWord (String.ofList (c :: cs))) (c :: cs)) rest
  | invalid {c : Char} {rest : List Char} : BeginsNothing c rest →
      Fits (.lexeme (.fault (.invalidCharacter (String.singleton c))) [c]) rest

namespace Piece

theorem Fits.text_ne_nil {p : Piece} {rest : List Char} (h : p.Fits rest) : p.text ≠ [] := by
  cases h with
  | numeral hn _ =>
    obtain ⟨c, cs, hw, -⟩ := Numeral.head_written hn
    simp [text, hw]
  | _ => simp [text]

section
variable {c : Char} {cs rest : List Char}

theorem next_blank (hblank : Text.isBlank c) : next c rest = (.blank c, rest) := by
  simp only [next, hblank, if_true]

theorem next_comment {body : List Char} (hbody : ∀ c ∈ body, inLine c)
    (hrest : StopsAt inLine rest) :
    next ';' (body ++ rest) = (.comment (';' :: body), rest) := by
  have hblank : Text.isBlank ';' = false := by decide
  simp only [next, hblank, Bool.false_eq_true, if_false, if_true,
    takeWhile_append_of_stopsAt hbody hrest, dropWhile_append_of_stopsAt hbody hrest]

theorem next_delimiter {kind : TokenKind} (hkind : delimiters.lookup c = some kind) :
    next c rest = (.lexeme (.token kind .absent) [c], rest) := by
  have hc : c = '(' ∨ c = ')' := by
    rw [lookup_delimiters] at hkind
    by_cases h : c = '('
    · exact Or.inl h
    · by_cases h' : c = ')'
      · exact Or.inr h'
      · rw [if_neg h, if_neg h'] at hkind
        cases hkind
  have hscan : scan c rest = ⟨.token kind .absent, [c], rest⟩ := by
    simp only [scan, hkind]
  rw [next_scan, hscan]
  · rcases hc with rfl | rfl <;> decide
  · rcases hc with rfl | rfl <;> decide
  · simp [hscan]

theorem next_numeral {n : Numeral} (hn : n.WellFormed) (hrest : n.EndsBefore rest)
    (htext : n.written ++ rest = c :: cs) : next c cs = (.lexeme n.reading n.written, rest) := by
  obtain ⟨d, ds, hw, hd⟩ := Numeral.head_written hn
  obtain rfl : d = c := by
    rw [hw] at htext
    exact (List.cons.inj htext).1
  have hrange : 0x2D ≤ d.toNat ∧ d.toNat ≤ 0x39 := by
    rcases hd with rfl | hd
    · decide
    · have := toNat_of_isDigit hd
      omega
  have hlookup : delimiters.lookup d = none := lookup_delimiters_eq_none (by omega)
  have hscan := scan_numeral hlookup (htext ▸ Numeral.read?_written hn hrest)
  rw [next_scan, hscan]
  · exact isBlank_of_graphic (by omega) (by omega)
  · intro heq
    subst heq
    exact absurd hrange (by decide)
  · simp [hscan, hw]

theorem next_string {w meant : List Char} (hw : StringText w meant) :
    next quoteMark (w ++ quoteMark :: rest) =
      (.lexeme (.token .string (.text (String.ofList meant))) (quoteMark :: w ++ [quoteMark]),
        rest) := by
  have hread : StringBody.read? (w ++ quoteMark :: rest) = _ := StringBody.read?_stringText hw
  have hscan := scan_string hread
  rw [next_scan (by decide) (by decide), hscan]
  simp [hscan]

theorem next_unclosed (h : Unclosed cs) :
    next quoteMark cs = (.lexeme (.fault .unterminatedString) (quoteMark :: cs), []) := by
  have hscan := scan_unclosed (StringBody.read?_eq_none_iff.2 h)
  rw [next_scan (by decide) (by decide), hscan]
  simp [hscan]

theorem next_word (hc : isWordStart c) (hcs : ∀ d ∈ cs, isWordPart d)
    (hrest : StopsAt isWordPart rest) :
    next c (cs ++ rest) = (.lexeme (readWord (String.ofList (c :: cs))) (c :: cs), rest) := by
  have hrange := toNat_of_isWordStart hc
  have hscan : scan c (cs ++ rest) = _ := scan_word hc
  rw [takeWhile_append_of_stopsAt hcs hrest, dropWhile_append_of_stopsAt hcs hrest] at hscan
  rw [next_scan, hscan]
  · exact isBlank_of_graphic (by omega) (by omega)
  · intro heq
    subst heq
    exact absurd hrange (by decide)
  · simp [hscan]

theorem next_invalid (hc : BeginsNothing c rest) :
    next c rest = (.lexeme (.fault (.invalidCharacter (String.singleton c))) [c], rest) := by
  have hscan : scan c rest = ⟨.fault (.invalidCharacter (String.singleton c)), [], c :: rest⟩ := by
    simp only [scan, hc.delimiter, hc.number, if_neg hc.string, hc.word, Bool.false_eq_true,
      if_false]
  simp only [next, hc.blank, hc.comment, hscan, Bool.false_eq_true, if_false, List.isEmpty_nil,
    if_true]

end

/-- What the lexer takes from the front of a text fits. -/
theorem fits_next (c : Char) (cs : List Char) : (next c cs).1.Fits (next c cs).2 := by
  by_cases hblank : Text.isBlank c
  · rw [next_blank hblank]
    exact .blank hblank
  by_cases hcomment : c = ';'
  · have hbody : ∀ d ∈ cs.takeWhile inLine, inLine d := List.all_eq_true.1 List.all_takeWhile
    rw [hcomment, ← List.takeWhile_append_dropWhile (p := inLine) (l := cs),
      next_comment hbody (stopsAt_dropWhile cs)]
    exact .comment hbody (stopsAt_dropWhile cs)
  cases hdelimiter : delimiters.lookup c with
  | some kind =>
    rw [next_delimiter hdelimiter]
    exact .delimiter hdelimiter
  | none =>
    cases hread : Numeral.read? (c :: cs) with
    | some read =>
      obtain ⟨hn, hrest⟩ := Numeral.wellFormed_of_read? hread
      rw [next_numeral hn hrest (Numeral.written_append_of_read? hread)]
      exact .numeral hn hrest
    | none =>
      by_cases hquote : c = quoteMark
      · subst hquote
        cases hbody : StringBody.read? cs with
        | some b =>
          have hw := StringBody.stringText_of_read? hbody
          rw [← StringBody.written_append_of_read? hbody, next_string hw]
          exact .string hw
        | none =>
          have hunclosed := StringBody.read?_eq_none_iff.1 hbody
          rw [next_unclosed hunclosed]
          exact .unclosed hunclosed
      · by_cases hword : isWordStart c
        · have hcs : ∀ d ∈ cs.takeWhile isWordPart, isWordPart d :=
            List.all_eq_true.1 List.all_takeWhile
          rw [← List.takeWhile_append_dropWhile (p := isWordPart) (l := cs),
            next_word hword hcs (stopsAt_dropWhile cs)]
          exact .word hword hcs (stopsAt_dropWhile cs)
        · have hc : BeginsNothing c cs := ⟨Bool.eq_false_iff.2 hblank, hcomment, hdelimiter, hread,
            hquote, Bool.eq_false_iff.2 hword⟩
          rw [next_invalid hc]
          exact .invalid hc

/-- Where a piece fits, the lexer takes it. -/
theorem next_of_fits {p : Piece} {rest : List Char} (h : p.Fits rest) {c : Char} {cs : List Char}
    (htext : p.text ++ rest = c :: cs) : next c cs = (p, rest) := by
  cases h with
  | numeral hn hrest => exact next_numeral hn hrest htext
  | blank hblank =>
    obtain ⟨rfl, rfl⟩ := List.cons.inj htext
    exact next_blank hblank
  | comment hbody hrest =>
    obtain ⟨rfl, rfl⟩ := List.cons.inj htext
    exact next_comment hbody hrest
  | delimiter hkind =>
    obtain ⟨rfl, rfl⟩ := List.cons.inj htext
    exact next_delimiter hkind
  | string hw =>
    rw [text, List.append_assoc] at htext
    obtain ⟨rfl, rfl⟩ := List.cons.inj htext
    exact next_string hw
  | unclosed hw =>
    rw [text, List.append_nil] at htext
    obtain ⟨rfl, rfl⟩ := List.cons.inj htext
    exact next_unclosed hw
  | word hc hcs hrest =>
    obtain ⟨rfl, rfl⟩ := List.cons.inj htext
    exact next_word hc hcs hrest
  | invalid hc =>
    obtain ⟨rfl, rfl⟩ := List.cons.inj htext
    exact next_invalid hc

end Piece

/-- The text falls into the pieces, each of which fits, and the rest. -/
inductive Tiles : List Piece → List Char → List Char → Prop where
  | nil {rest : List Char} : Tiles [] rest rest
  | cons {p : Piece} {ps : List Piece} {text rest : List Char} : p.Fits text → Tiles ps text rest →
      Tiles (p :: ps) (p.text ++ text) rest

theorem Tiles.append {ps qs : List Piece} {text middle rest : List Char} (hp : Tiles ps text middle)
    (hq : Tiles qs middle rest) : Tiles (ps ++ qs) text rest := by
  induction hp with
  | nil => exact hq
  | cons hfits _ ih => exact .cons hfits (ih hq)

/-- The pieces of a text fit. -/
theorem tiles_pieces (text : List Char) : Tiles (pieces text) text [] := by
  induction text using pieces.induct with
  | case1 =>
    rw [pieces]
    exact .nil
  | case2 c cs ih =>
    rw [pieces]
    have hfits := Piece.fits_next c cs
    have hcons := Tiles.cons hfits ih
    rwa [Piece.text_append_next] at hcons

/-- Pieces that fit are the pieces of the text. -/
theorem Tiles.pieces_eq {ps : List Piece} {text rest : List Char} (h : Tiles ps text rest) :
    pieces text = ps ++ pieces rest := by
  induction h with
  | nil => rfl
  | @cons p ps text rest hfits _ ih =>
    obtain ⟨c, cs, htext⟩ : ∃ c cs, p.text ++ text = c :: cs :=
      List.exists_cons_of_ne_nil (List.append_ne_nil_of_left_ne_nil hfits.text_ne_nil _)
    rw [htext, pieces, Piece.next_of_fits hfits htext, ih]
    rfl

end Conditions
