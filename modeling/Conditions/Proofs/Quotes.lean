import Conditions.Proofs.Locality
import Mathlib.Algebra.Group.Nat.Even
import Mathlib.Order.Bounds.Basic

/-!
# Quotes and backslashes

Which quote closes a string literal can be told from the backslashes in front of it: it is the first
one that an even number of backslashes stands immediately before. Reading the body pairs each
backslash with the character behind it, from the left. A run of backslashes before a quote is thus
used up in pairs, and the quote is paired itself if one is left over.
-/

namespace Conditions

/-- The number of backslashes, side by side, at the end of the text. -/
def backslashesAtEnd (w : List Char) : Nat :=
  (w.rtakeWhile (· = '\\')).length

/-- The quote at `q` is one that would close the literal that begins with the quote at `p`: between
the two, an even number of backslashes stands immediately before it. -/
structure ClosesAt (text : List Char) (p q : Nat) : Prop where
  behind : p < q
  quote : text[q]? = some quoteMark
  even : Even (backslashesAtEnd (text.extract (p + 1) q))

/-- What the body of a literal stands for: from the left, each backslash and the character behind it
are a line feed, a tab, or that character itself. -/
def decodeBody : List Char → List Char
  | [] => []
  | '\\' :: 'n' :: cs => '\n' :: decodeBody cs
  | '\\' :: 't' :: cs => '\t' :: decodeBody cs
  | '\\' :: c :: cs => c :: decodeBody cs
  | c :: cs => c :: decodeBody cs

/-- Lexing the source comes to the offset, where another piece begins. What it has found by then is
given. -/
def Lexing.ComesTo (source filename : String) (p : Nat) (found : Lexing) : Prop :=
  ∃ ps, Tiles ps source.toList (source.toList.drop p) ∧ ofPieces filename .start ps = found ∧
    found.oversized? = none

/-- A scanner of the source comes to the offset by what it has been told to do. -/
def Scanner.ComesTo (source filename : String) (p : Nat) (s : Scanner) : Prop :=
  s.position.offset = p ∧ ∃ ops, s = ((ofSource source filename).performAll ops).1

/-! ## Runs of backslashes -/

theorem backslashesAtEnd_concat (w : List Char) (d : Char) :
    backslashesAtEnd (w ++ [d]) = if d = '\\' then backslashesAtEnd w + 1 else 0 := by
  rw [backslashesAtEnd, List.rtakeWhile_concat]
  by_cases hd : d = '\\'
  · simp [hd, backslashesAtEnd]
  · simp [hd]

/-- What ends in an even number of backslashes makes no difference to the parity. -/
theorem even_backslashesAtEnd_append {u : List Char} (hu : Even (backslashesAtEnd u))
    (w : List Char) : Even (backslashesAtEnd (u ++ w)) ↔ Even (backslashesAtEnd w) := by
  induction w using List.reverseRecOn with
  | nil => simpa [backslashesAtEnd] using hu
  | append_singleton w d ih =>
    rw [← List.append_assoc, backslashesAtEnd_concat, backslashesAtEnd_concat]
    by_cases hd : d = '\\'
    · simp [hd, Nat.even_add_one, ih]
    · simp [hd]

theorem even_backslashesAtEnd_plain {c : Char} (hc : c ≠ '\\') (w : List Char) :
    Even (backslashesAtEnd (c :: w)) ↔ Even (backslashesAtEnd w) := by
  apply even_backslashesAtEnd_append (u := [c])
  have hsplit := backslashesAtEnd_concat [] c
  rw [if_neg hc] at hsplit
  exact hsplit ▸ Even.zero

theorem even_backslashesAtEnd_escape (c : Char) (w : List Char) :
    Even (backslashesAtEnd ('\\' :: c :: w)) ↔ Even (backslashesAtEnd w) := by
  apply even_backslashesAtEnd_append (u := ['\\', c])
  have hsplit := backslashesAtEnd_concat ['\\'] c
  by_cases hc : c = '\\'
  · rw [hc]
    decide
  · rw [if_neg hc] at hsplit
    exact hsplit ▸ Even.zero

/-! ## The quote that closes a literal -/

theorem exists_before {text : List Char} {p : Nat} {c : Char} (h : text[p]? = some c) :
    ∃ before cs, text = before ++ c :: cs ∧ before.length = p := by
  obtain ⟨hlt, hget⟩ := List.getElem?_eq_some_iff.mp h
  refine ⟨text.take p, text.drop (p + 1), ?_, List.length_take_of_le (Nat.le_of_lt hlt)⟩
  rw [← hget, ← List.drop_eq_getElem_cons hlt, List.take_append_drop]

/-- The characters behind one that is itself behind the text `before`. -/
theorem extract_behind (before cs : List Char) (c : Char) (k : Nat) :
    (before ++ c :: cs).extract (before.length + 1) (before.length + 1 + k) = cs.take k := by
  rw [List.extract_eq_take_drop, Nat.add_sub_cancel_left, List.drop_append,
    List.drop_eq_nil_of_le (Nat.le_succ _), Nat.add_sub_cancel_left]
  rfl

/-- Where, in the text behind the quote that opens a literal, the quotes stand that would close
it. -/
def closers (cs : List Char) : Set Nat :=
  {k | cs[k]? = some quoteMark ∧ Even (backslashesAtEnd (cs.take k))}

theorem closesAt_iff {before cs : List Char} {q : Nat} :
    ClosesAt (before ++ quoteMark :: cs) before.length q ↔
      ∃ k ∈ closers cs, q = before.length + 1 + k := by
  have hbehind (k : Nat) : (before ++ quoteMark :: cs)[before.length + 1 + k]? = cs[k]? := by
    rw [Nat.add_assoc, List.getElem?_append_right (Nat.le_add_right ..), Nat.add_sub_cancel_left,
      Nat.add_comm 1 k, List.getElem?_cons_succ]
  constructor
  · intro h
    obtain ⟨k, rfl⟩ := Nat.exists_eq_add_of_le (Nat.succ_le_of_lt h.behind)
    have hquote := h.quote
    have heven := h.even
    rw [Nat.succ_eq_add_one, hbehind] at hquote
    rw [Nat.succ_eq_add_one, extract_behind] at heven
    exact ⟨k, ⟨hquote, heven⟩, rfl⟩
  · rintro ⟨k, ⟨hquote, heven⟩, rfl⟩
    exact ⟨by omega, (hbehind k).trans hquote, by rwa [extract_behind]⟩

section
variable {c : Char} {cs w meant rest : List Char} {k : Nat}

theorem mem_closers_plain (hquote : c ≠ quoteMark) (hescape : c ≠ '\\') :
    k ∈ closers (c :: cs) ↔ ∃ j ∈ closers cs, k = j + 1 := by
  cases k with
  | zero => simp [closers, hquote]
  | succ j => simp [closers, even_backslashesAtEnd_plain hescape]

/-- The character behind a backslash is no quote that closes the literal. -/
theorem mem_closers_escape :
    k ∈ closers ('\\' :: c :: cs) ↔ ∃ j ∈ closers cs, k = j + 2 := by
  match k with
  | 0 => simp [closers, quoteMark]
  | 1 =>
    have hodd : ¬ Even (backslashesAtEnd ['\\']) := by decide
    simp [closers, hodd]
  | j + 2 => simp [closers, even_backslashesAtEnd_escape]

/-- No quote in a body closes the literal. -/
theorem StringText.le_of_mem_closers (h : StringText w meant) (hk : k ∈ closers (w ++ rest)) :
    w.length ≤ k := by
  induction h generalizing k with
  | nil => exact Nat.zero_le k
  | plain hquote hescape _ ih =>
    obtain ⟨j, hj, rfl⟩ := (mem_closers_plain hquote hescape).mp hk
    exact Nat.succ_le_succ (ih hj)
  | escape _ ih =>
    obtain ⟨j, hj, rfl⟩ := mem_closers_escape.mp hk
    exact Nat.add_le_add_right (ih hj) 2

theorem StringText.even_backslashesAtEnd (h : StringText w meant) : Even (backslashesAtEnd w) := by
  induction h with
  | nil => exact Even.zero
  | plain _ hescape _ ih => exact (even_backslashesAtEnd_plain hescape _).mpr ih
  | escape _ ih => exact (even_backslashesAtEnd_escape _ _).mpr ih

/-- The quote behind a body is the first that closes the literal. -/
theorem StringText.isLeast_closers (h : StringText w meant) (rest : List Char) :
    IsLeast (closers (w ++ quoteMark :: rest)) w.length :=
  ⟨⟨by simp, by simpa using h.even_backslashesAtEnd⟩, fun _ hk => h.le_of_mem_closers hk⟩

/-- Where no body is followed by a quote, no quote closes the literal. The induction follows the
reading, which comes to the end of the text. -/
theorem Unclosed.not_mem_closers (h : Unclosed cs) : k ∉ closers cs := by
  rw [← StringBody.read?_eq_none_iff] at h
  induction cs using StringBody.read?.induct generalizing k with
  | case1 => simp [closers]
  | case2 cs => cases h
  | case3 c cs ih =>
    rw [StringBody.read?, Option.map_eq_none_iff] at h
    intro hk
    obtain ⟨j, hj, -⟩ := mem_closers_escape.mp hk
    exact ih h hj
  | case4 c cs hquote hescape ih =>
    by_cases hc : c = '\\'
    · subst hc
      cases cs with
      | nil => cases k <;> simp [closers, quoteMark]
      | cons d ds => exact absurd rfl (hescape d ds rfl)
    · rw [StringBody.read?_plain hquote hc, Option.map_eq_none_iff] at h
      intro hk
      obtain ⟨j, hj, -⟩ := (mem_closers_plain hquote hc).mp hk
      exact ih h hj

/-! ## What a literal stands for -/

theorem decodeBody_plain (hc : c ≠ '\\') : decodeBody (c :: cs) = c :: decodeBody cs := by
  rw [decodeBody]
  · exact fun _ h _ => hc h
  · exact fun _ h _ => hc h
  · exact fun _ _ h _ => hc h

theorem decodeBody_escape : decodeBody ('\\' :: c :: cs) = unescape c :: decodeBody cs := by
  by_cases hn : c = 'n'
  · subst hn
    rfl
  by_cases ht : c = 't'
  · subst ht
    rfl
  rw [decodeBody, unescape]
  · exact hn
  · exact ht
  · exact hn
  · exact ht

theorem StringText.decodeBody_eq (h : StringText w meant) : decodeBody w = meant := by
  induction h with
  | nil => rfl
  | plain _ hescape _ ih => rw [decodeBody_plain hescape, ih]
  | escape _ ih => rw [decodeBody_escape, ih]

end

/-! ## Reading a literal -/

section
variable {source filename : String} {before cs w meant rest : List Char}

theorem Scanner.Between.next_string {s : Scanner}
    (h : s.Between before (quoteMark :: (w ++ quoteMark :: rest))) (hw : StringText w meant) :
    s.next = (s.goto (Position.start.after (before ++ (quoteMark :: w ++ [quoteMark]))),
      .ok ⟨.string, String.ofList (quoteMark :: w ++ [quoteMark]), .text (String.ofList meant),
        some ((Position.start.after before).locate s.filename)⟩) := by
  rw [h.next_eq, scan_string (StringBody.read?_stringText hw), Scanner.move, h.position,
    Position.after_append _ before]
  rfl

theorem Scanner.Between.next_unclosed {s : Scanner} (h : s.Between before (quoteMark :: cs))
    (hcs : Unclosed cs) :
    s.next = (s.goto (Position.start.after (before ++ quoteMark :: cs)),
      .error (.lexical
        ⟨.unterminatedString, (Position.start.after before).locate s.filename⟩)) := by
  rw [h.next_eq, scan_unclosed (StringBody.read?_eq_none_iff.mpr hcs), Scanner.move, h.position,
    Position.after_append]
  rfl

/-- The parts of a text in which a literal is closed. -/
theorem literal_extents (before w rest : List Char) :
    let text := before ++ quoteMark :: (w ++ quoteMark :: rest)
    let q := before.length + 1 + w.length
    text.extract before.length (q + 1) = quoteMark :: w ++ [quoteMark] ∧
    text.extract (before.length + 1) q = w ∧
    text.take (q + 1) = before ++ (quoteMark :: w ++ [quoteMark]) ∧
    text.drop (q + 1) = rest := by
  intro text q
  have htext : text = before ++ (quoteMark :: w ++ [quoteMark]) ++ rest := by simp [text]
  have hlength : (before ++ (quoteMark :: w ++ [quoteMark])).length = q + 1 := by
    simp [q]
    omega
  refine ⟨?_, ?_, ?_, ?_⟩
  · rw [List.extract_eq_take_drop, htext, List.append_assoc, List.drop_left]
    apply List.take_left'
    simp [q]
    omega
  · exact (extract_behind before _ quoteMark w.length).trans List.take_left
  · rw [htext, ← hlength, List.take_left]
  · rw [htext, ← hlength, List.drop_left]

/-- A scanner that comes to an offset stands between what is before it and the rest. -/
theorem Scanner.ComesTo.between {s : Scanner} (h : ComesTo source filename before.length s)
    (hsource : source.toList = before ++ rest) : s.Between before rest ∧ s.filename = filename := by
  obtain ⟨hoffset, ops, rfl⟩ := h
  have hfresh : (ofSource source filename).Scans source filename :=
    ⟨rfl, rfl, _, _, between_ofSource source filename⟩
  obtain ⟨hs, hname, before', rest', hbetween⟩ := hfresh.performAll ops
  have hlength : before'.length = before.length := by
    have := hbetween.offset
    omega
  have hsplit : before' ++ rest' = before ++ rest := by
    rw [← hbetween.source, hs, hsource]
  obtain ⟨rfl, rfl⟩ := List.append_inj hsplit hlength
  exact ⟨hbetween, hname⟩

/-- Lexing goes on with the piece that fits where it has come to. -/
theorem Lexing.ComesTo.lex_eq {found : Lexing} {piece : Piece}
    (h : ComesTo source filename before.length found)
    (hsource : source.toList = before ++ (piece.text ++ rest)) (hpiece : piece.Fits rest) :
    lex source filename =
      let others := ofPieces filename (Position.start.after before) (piece :: pieces rest)
      ⟨found.tokens ++ others.tokens, found.errors ++ others.errors, others.stop,
        others.oversized?⟩ := by
  obtain ⟨ps, htiles, rfl, hnone⟩ := h
  rw [hsource, List.drop_left] at htiles
  have hstop : (ofPieces filename .start ps).stop = Position.start.after before := by
    rcases ofPieces_tiles filename htiles .start with
      ⟨tiles, htiled, heq⟩ | ⟨e, -, -, -, -, -, heq⟩
    · have htext := htiled.text_eq
      rw [List.append_cancel_right_eq] at htext
      rw [heq, htext]
    · rw [hnone] at heq
      cases heq
  have hpieces : pieces source.toList = ps ++ piece :: pieces rest := by
    rw [hsource, htiles.pieces_eq, (Tiles.cons hpiece .nil).pieces_eq]
    rfl
  rw [lex, hpieces, ofPieces_append filename hnone]
  simp only [hstop]

end

/-- A quote that the lexer comes to opens a string literal, which goes up to the first quote behind
it that an even number of backslashes stands immediately before. The literal is one token: its
lexeme is the text from quote to quote, and its value is what the text between them stands for. If
there is no such quote, the string is unterminated and all that is left is at fault. This is so
whatever a scanner has done before it stands at the quote, and whatever has been found where the
lexing of the whole source comes to it. -/
theorem quote_opens_literal (source filename : String) (p : Nat)
    (hquote : source.toList[p]? = some quoteMark) :
    let text := source.toList
    let location := (Position.start.after (text.take p)).locate filename
    (∃ q, IsLeast {q | ClosesAt text p q} q ∧
      let t : Token := ⟨.string, String.ofList (text.extract p (q + 1)),
        .text (String.ofList (decodeBody (text.extract (p + 1) q))), some location⟩
      let stop := Position.start.after (text.take (q + 1))
      let others := Lexing.ofPieces filename stop (pieces (text.drop (q + 1)))
      (∀ s, Scanner.ComesTo source filename p s → s.next = (s.goto stop, .ok t)) ∧
      ∀ found, Lexing.ComesTo source filename p found → lex source filename =
        ⟨found.tokens ++ t :: others.tokens, found.errors ++ others.errors, others.stop,
          others.oversized?⟩) ∨
    ((∀ q, ¬ ClosesAt text p q) ∧
      let e : LexicalError := ⟨.unterminatedString, location⟩
      let stop := Position.start.after text
      (∀ s, Scanner.ComesTo source filename p s →
        s.next = (s.goto stop, .error (.lexical e))) ∧
      ∀ found, Lexing.ComesTo source filename p found → lex source filename =
        ⟨found.tokens, found.errors ++ [e], stop, none⟩) := by
  obtain ⟨before, cs, hsource, rfl⟩ := exists_before hquote
  intro text location
  have htext : text = before ++ quoteMark :: cs := hsource
  clear_value text
  subst htext
  have hlocation : location = (Position.start.after before).locate filename := by
    simp only [location, List.take_left]
  clear_value location
  subst hlocation
  cases hread : StringBody.read? cs with
  | some b =>
    obtain ⟨w, meant, rest⟩ := b
    have hw : StringText w meant := StringBody.stringText_of_read? hread
    obtain rfl : w ++ quoteMark :: rest = cs := StringBody.written_append_of_read? hread
    obtain ⟨hlexeme, hbody, htake, hdrop⟩ := literal_extents before w rest
    refine .inl ⟨before.length + 1 + w.length, ⟨?_, fun q hq => ?_⟩, ?_⟩
    · exact closesAt_iff.mpr ⟨w.length, (hw.isLeast_closers rest).1, rfl⟩
    · obtain ⟨k, hk, rfl⟩ := closesAt_iff.mp hq
      exact Nat.add_le_add_left ((hw.isLeast_closers rest).2 hk) _
    · rw [hlexeme, hbody, htake, hdrop, hw.decodeBody_eq]
      refine ⟨fun s hs => ?_, fun found hfound => ?_⟩
      · obtain ⟨hbetween, hname⟩ := hs.between hsource
        rw [hbetween.next_string hw, hname]
      · have hsplit : source.toList = before ++ ((quoteMark :: w ++ [quoteMark]) ++ rest) := by
          simpa using hsource
        rw [hfound.lex_eq hsplit (.string hw), Position.after_append _ before]
        rfl
  | none =>
    have hunclosed := StringBody.read?_eq_none_iff.mp hread
    refine .inr ⟨fun q hq => ?_, fun s hs => ?_, fun found hfound => ?_⟩
    · obtain ⟨k, hk, -⟩ := closesAt_iff.mp hq
      exact hunclosed.not_mem_closers hk
    · obtain ⟨hbetween, hname⟩ := hs.between hsource
      rw [hbetween.next_unclosed hunclosed, hname]
    · have hsplit : source.toList = before ++ (quoteMark :: cs ++ []) := by simpa using hsource
      rw [hfound.lex_eq hsplit (.unclosed hunclosed), Position.after_append _ before, pieces]
      simp [Lexing.ofPieces]

theorem quote_opens_literal_escaped :
    let text := ['(', quoteMark, '\\', '\\', '\\', quoteMark, 'n', quoteMark, ' ', '7']
    let source := String.ofList text
    let t : Token := ⟨.string, String.ofList (text.extract 1 8),
      .text (String.ofList ['\\', quoteMark, 'n']), some ⟨⟨1, 1, 2⟩, "f"⟩⟩
    let s := ((Scanner.ofSource source "f").performAll [.advance 1]).1
    let found := Lexing.ofPieces "f" .start [.lexeme (.token .leftParen .absent) ['(']]
    source.toList[1]? = some quoteMark ∧ source.toList[5]? = some quoteMark ∧
    Scanner.ComesTo source "f" 1 s ∧ Lexing.ComesTo source "f" 1 found ∧
    IsLeast {q | ClosesAt source.toList 1 q} 7 ∧ s.next = (s.goto ⟨8, 1, 9⟩, .ok t) ∧
    ∃ tokens, (lex source "f").tokens = found.tokens ++ t :: tokens := by
  intro text source t s found
  have hsource : source.toList = text := String.toList_ofList
  have hquote : source.toList[1]? = some quoteMark := hsource ▸ rfl
  have hs : Scanner.ComesTo source "f" 1 s := by
    refine ⟨?_, _, rfl⟩
    show ((Scanner.ofSource source "f").performAll [.advance 1]).1.position.offset = 1
    rw [Scanner.ofSource, hsource]
    rfl
  have hfound : Lexing.ComesTo source "f" 1 found := by
    rw [Lexing.ComesTo, hsource]
    exact ⟨_, .cons (.delimiter rfl) .nil, rfl, rfl⟩
  have hcloses : ClosesAt source.toList 1 7 := by
    rw [hsource]
    exact ⟨by decide, rfl, by decide⟩
  have hfirst : ∀ q < 7, text[q]? = some quoteMark → 1 < q →
      ¬ Even (backslashesAtEnd (text.extract 2 q)) := by decide
  have hopens := quote_opens_literal source "f" 1 hquote
  rw [hsource] at hopens hcloses ⊢
  rcases hopens with ⟨q, hq, hnext, hlex⟩ | ⟨hnone, -⟩
  · obtain rfl : q = 7 := by
      refine Nat.le_antisymm (hq.2 hcloses) (Nat.le_of_not_lt fun hlt => ?_)
      exact hfirst q hlt hq.1.quote hq.1.behind hq.1.even
    exact ⟨rfl, rfl, hs, hfound, hq, hnext s hs, _, congrArg Lexing.tokens (hlex found hfound)⟩
  · exact absurd hcloses (hnone 7)

end Conditions
