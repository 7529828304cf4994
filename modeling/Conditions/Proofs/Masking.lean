import Conditions.Proofs.Locality

/-!
# Faults stay in their spans

A fault does not reach beyond the text it is about. With a space in the place of every character
that is at fault, a source falls into the same pieces but for blanks in the place of the faults. It
is lexed to the same tokens, then, and without errors.
-/

namespace Conditions

/-! ## Masks -/

/-- Whether the character at the offset belongs to what the error is about: one character, the
number, the word, or all that follows a quote. -/
def LexicalError.covers (e : LexicalError) (offset : Int) : Bool :=
  e.location.offset ≤ offset &&
    match e.fault with
    | .invalidCharacter _ => offset < e.location.offset + 1
    | .invalidNumber lexeme => offset < e.location.offset + lexeme.length
    | .unknownWord word => offset < e.location.offset + word.length
    | .unterminatedString => true

/-- The text that begins at the offset, with a space for every character that is at fault. -/
def maskFrom (errors : List LexicalError) (offset : Int) (text : List Char) : List Char :=
  text.mapIdx fun i c => if errors.any (·.covers (offset + i)) then ' ' else c

/-- The source with a space for every character that is at fault. -/
def maskErrors (source : String) (errors : List LexicalError) : String :=
  String.ofList (maskFrom errors 0 source.toList)

section
variable {errors errors' : List LexicalError} {offset : Int} {text : List Char}

theorem maskFrom_append (cs ds : List Char) :
    maskFrom errors offset (cs ++ ds) =
      maskFrom errors offset cs ++ maskFrom errors (offset + cs.length) ds := by
  have hadd : ∀ i : Nat, offset + (i + cs.length : Nat) = offset + cs.length + i := by omega
  simp only [maskFrom, List.mapIdx_append, hadd]

theorem maskFrom_congr
    (h : ∀ i : Nat, i < text.length →
      errors.any (·.covers (offset + i)) = errors'.any (·.covers (offset + i))) :
    maskFrom errors offset text = maskFrom errors' offset text := by
  apply List.ext_getElem
  · simp [maskFrom]
  · intro i hi _
    have hi : i < text.length := by simpa [maskFrom] using hi
    simp only [maskFrom, List.getElem_mapIdx, h i hi]

theorem maskFrom_of_not_covers
    (h : ∀ e ∈ errors, ∀ i : Nat, i < text.length → e.covers (offset + i) = false) :
    maskFrom errors offset text = text := by
  apply List.ext_getElem
  · simp [maskFrom]
  · intro i _ hi
    have hany : errors.any (·.covers (offset + i)) = false :=
      List.any_eq_false.2 fun e he => by simp [h e he i hi]
    simp only [maskFrom, List.getElem_mapIdx, hany, Bool.false_eq_true, if_false]

theorem maskFrom_of_covers {e : LexicalError} (he : e ∈ errors)
    (h : ∀ i : Nat, i < text.length → e.covers (offset + i)) :
    maskFrom errors offset text = text.map fun _ => ' ' := by
  apply List.ext_getElem
  · simp [maskFrom]
  · intro i _ hi
    have hi : i < text.length := by simpa using hi
    have hany : errors.any (·.covers (offset + i)) = true := List.any_eq_true.2 ⟨e, he, h i hi⟩
    simp only [maskFrom, List.getElem_mapIdx, List.getElem_map, hany, if_true]

end

/-- An error covers its span and nothing else of the text. -/
theorem IsSpan.covers_iff {e : LexicalError} {w rest : List Char} (h : IsSpan e.fault w rest)
    {i : Nat} (hi : i < (w ++ rest).length) :
    e.covers (e.location.offset + i) ↔ i < w.length := by
  obtain ⟨fault, l⟩ := e
  have hle : l.offset ≤ l.offset + i := by omega
  cases h with
  | invalidCharacter _ _ _ _ _ =>
    simp only [LexicalError.covers, decide_eq_true hle, Bool.true_and, decide_eq_true_eq,
      List.length_singleton]
    omega
  | invalidNumber _ _ => simp [LexicalError.covers, hle]
  | unknownWord _ _ => simp [LexicalError.covers, hle]
  | unterminatedString _ =>
    rw [List.append_nil] at hi
    simp only [LexicalError.covers, decide_eq_true hle, Bool.and_true, true_iff]
    exact hi

/-- An error masks its span. What follows is masked by the other errors only. -/
theorem IsSpan.maskFrom_cons {e : LexicalError} {w rest : List Char} (h : IsSpan e.fault w rest)
    (errors : List LexicalError) :
    maskFrom (e :: errors) e.location.offset (w ++ rest) =
      (w.map fun _ => ' ') ++ maskFrom errors (e.location.offset + w.length) rest := by
  have hspan : maskFrom (e :: errors) e.location.offset w = w.map fun _ => ' ' := by
    refine maskFrom_of_covers List.mem_cons_self fun i hi => (h.covers_iff ?_).2 hi
    rw [List.length_append]
    omega
  have hrest : maskFrom (e :: errors) (e.location.offset + w.length) rest =
      maskFrom errors (e.location.offset + w.length) rest := by
    refine maskFrom_congr fun i hi => ?_
    have hbehind : ¬ e.covers (e.location.offset + (w.length + i : Nat)) := by
      rw [h.covers_iff (by rw [List.length_append]; omega)]
      omega
    rw [Int.natCast_add, ← Int.add_assoc, Bool.not_eq_true] at hbehind
    simp [hbehind]
  rw [maskFrom_append, hspan, hrest]

theorem LexicalError.covers_eq_false {e : LexicalError} {offset : Int}
    (h : offset < e.location.offset) : e.covers offset = false := by
  have hle : ¬ e.location.offset ≤ offset := Int.not_le.2 h
  simp [covers, hle]

/-- Errors leave alone what is before them. -/
theorem maskFrom_append_of_behind {errors : List LexicalError} {offset : Int} {w : List Char}
    (h : ∀ e ∈ errors, offset + w.length ≤ e.location.offset) (rest : List Char) :
    maskFrom errors offset (w ++ rest) = w ++ maskFrom errors (offset + w.length) rest := by
  rw [maskFrom_append, maskFrom_of_not_covers]
  intro e he i hi
  have hbehind := h e he
  apply LexicalError.covers_eq_false
  omega

theorem Lexing.offset_le_of_mem_errors (filename : String) (ps : List Piece) (p : Position) :
    ∀ e ∈ (ofPieces filename p ps).errors, p.offset ≤ e.location.offset := by
  induction ps generalizing p with
  | nil => exact List.forall_mem_nil _
  | cons piece ps ih =>
    have hbehind : ∀ w e, e ∈ (ofPieces filename (p.after w) ps).errors →
        p.offset ≤ e.location.offset := by
      intro w e he
      have := ih _ e he
      rw [Position.offset_after] at this
      omega
    cases piece with
    | blank c => exact hbehind [c]
    | comment text => exact hbehind text
    | lexeme reading text =>
      cases reading with
      | token kind payload => exact hbehind text
      | fault fault =>
        intro e he
        rcases List.mem_cons.1 he with rfl | he
        · exact Int.le_refl _
        · exact hbehind text e he
      | oversized e => exact List.forall_mem_nil _

/-- What lexing finds in the place of a piece once its faults are masked. -/
def Piece.masked : Piece → List Piece
  | lexeme (.fault _) text => text.map fun _ => .blank ' '
  | piece => [piece]

section
variable {filename : String} {p : Position} {piece : Piece} {tile : Tile} {rest : List Char}

/-- Where lexing does not break off, every piece is a tile. -/
theorem Piece.exists_tile {ps : List Piece} (hfits : piece.Fits rest)
    (h : (Lexing.ofPieces filename p (piece :: ps)).oversized? = none) :
    ∃ tile, piece.tile? filename p = some tile := by
  cases htile : piece.tile? filename p with
  | some tile => exact ⟨tile, rfl⟩
  | none =>
    obtain ⟨e, hpiece, -⟩ := Piece.oversized_of_tile?_eq_none hfits htile
    rw [hpiece] at h
    cases h

theorem Piece.masked_of_no_error (h : piece.tile? filename p = some tile)
    (herror : tile.error? = none) : piece.masked = [piece] ∧ piece.IsClosed := by
  cases piece with
  | blank c => exact ⟨rfl, nofun⟩
  | comment text => exact ⟨rfl, nofun⟩
  | lexeme reading text =>
    cases reading with
    | token kind payload => exact ⟨rfl, nofun⟩
    | fault fault =>
      cases h
      cases herror
    | oversized e => cases h

theorem Piece.masked_of_error {e : LexicalError} (hfits : piece.Fits rest)
    (h : piece.tile? filename p = some tile) (herror : tile.error? = some e) :
    piece.masked = piece.text.map (fun _ => .blank ' ') ∧ (∀ d, piece ≠ .blank d) ∧
      e.location = p.locate filename ∧ IsSpan e.fault piece.text rest := by
  have hstands := standsAt_of_fits hfits h
  cases piece with
  | blank c =>
    cases h
    cases herror
  | comment text =>
    cases h
    cases herror
  | lexeme reading text =>
    cases reading with
    | token kind payload =>
      cases h
      cases herror
    | fault fault =>
      cases h
      cases herror
      cases hstands with
      | error hspan => exact ⟨rfl, nofun, rfl, hspan⟩
    | oversized e => cases h

end

theorem Tiles.eq_nil {ps : List Piece} {rest : List Char} (h : Tiles ps [] rest) : ps = [] := by
  generalize htext : ([] : List Char) = text at h
  cases h with
  | nil => rfl
  | cons hfits _ => exact absurd (List.append_eq_nil_iff.1 htext.symm).1 hfits.text_ne_nil

theorem tiles_blanks {ps : List Piece} {text rest : List Char} (h : Tiles ps text rest)
    (w : List Char) :
    Tiles (w.map (fun _ => .blank ' ') ++ ps) (w.map (fun _ => ' ') ++ text) rest := by
  have hblank : Text.isBlank ' ' = true := by decide
  induction w with
  | nil => exact h
  | cons c w ih => exact .cons (.blank hblank) ih

/-- Only a blank begins with a blank. -/
theorem Piece.Fits.isBlank_head {piece : Piece} {rest cs : List Char} {c : Char}
    (h : piece.Fits rest) (hpiece : ∀ d, piece ≠ .blank d) (hc : piece.text ++ rest = c :: cs) :
    Text.isBlank c = false := by
  have hnext := Piece.next_of_fits h hc
  refine Bool.eq_false_iff.2 fun hblank => ?_
  rw [Piece.next_blank hblank] at hnext
  exact hpiece c (congrArg Prod.fst hnext).symm

/-- The second text begins as the first does, or has a space where the first begins with a character
that is no blank. -/
def BeginsMasked (text text' : List Char) : Prop :=
  text'.head? = text.head? ∨
    text'.head? = some ' ' ∧ ∃ c, text.head? = some c ∧ Text.isBlank c = false

/-- Masking what follows a piece does not change the piece. -/
theorem Piece.Fits.before_mask {piece : Piece} {rest rest' : List Char} (h : piece.Fits rest)
    (hpiece : piece.IsClosed) (hmask : BeginsMasked rest rest') : piece.Fits rest' := by
  rcases hmask with hhead | ⟨hhead, c, hc, hnonblank⟩
  · exact h.of_head?_eq hpiece hhead
  · obtain ⟨ds, rfl⟩ := List.head?_eq_some_iff.1 hhead
    refine h.before_blank hpiece (by decide) fun text htext => ?_
    -- A comment goes on up to the end of its line, which is a blank.
    subst htext
    cases h with
    | comment _ hrest =>
      have hline : c = '\n' := by simpa [inLine] using hrest c hc
      rw [hline] at hnonblank
      cases hnonblank

/-- The pieces of a text in which the faults are masked. -/
theorem Tiles.masked (filename : String) {ps : List Piece} {text rest : List Char}
    (h : Tiles ps text rest) (hrest : rest = []) : ∀ p : Position,
    (Lexing.ofPieces filename p ps).oversized? = none →
      Tiles (ps.flatMap Piece.masked)
        (maskFrom (Lexing.ofPieces filename p ps).errors p.offset text) [] ∧
      BeginsMasked text (maskFrom (Lexing.ofPieces filename p ps).errors p.offset text) := by
  induction h with
  | nil =>
    intro p _
    rw [hrest]
    exact ⟨.nil, Or.inl rfl⟩
  | @cons piece ps text rest hfits _ ih =>
    intro p hnone
    obtain ⟨tile, htile⟩ := Piece.exists_tile hfits hnone
    rw [Piece.ofPieces_of_tile? htile] at hnone ⊢
    obtain ⟨htiles, hbegins⟩ := ih hrest (p.after piece.text) hnone
    have hbehind := Lexing.offset_le_of_mem_errors filename ps (p.after piece.text)
    rw [Position.offset_after] at htiles hbegins hbehind
    obtain ⟨c, cs, hc⟩ := List.exists_cons_of_ne_nil hfits.text_ne_nil
    cases herror : tile.error? with
    | none =>
      obtain ⟨hmasked, hclosed⟩ := Piece.masked_of_no_error htile herror
      simp only [Option.toList_none, List.nil_append, maskFrom_append_of_behind hbehind,
        List.flatMap_cons, hmasked]
      refine ⟨.cons (hfits.before_mask hclosed hbegins) htiles, Or.inl ?_⟩
      rw [hc]
      rfl
    | some e =>
      obtain ⟨hmasked, hblank, hlocation, hspan⟩ := Piece.masked_of_error hfits htile herror
      have hoffset : p.offset = e.location.offset := by rw [hlocation]; rfl
      have hhead : piece.text ++ text = c :: (cs ++ text) := by rw [hc, List.cons_append]
      rw [hoffset] at htiles
      simp only [Option.toList_some, List.singleton_append, hoffset, hspan.maskFrom_cons,
        List.flatMap_cons, hmasked]
      refine ⟨tiles_blanks htiles piece.text, Or.inr ⟨?_, c, ?_, hfits.isBlank_head hblank hhead⟩⟩
      · rw [hc]
        rfl
      · rw [hhead]
        rfl

theorem IsNumberText.newline_not_mem {w : List Char} (h : IsNumberText w) : '\n' ∉ w := by
  obtain ⟨n, hn, rfl⟩ := h
  intro hmem
  have hdigit : '\n'.isDigit = false := rfl
  rw [Numeral.written_eq, List.mem_append, List.mem_append] at hmem
  rcases hmem with (hmem | hmem) | hmem
  · cases n.negative <;> simp at hmem
  · rw [hn.2.1 _ hmem] at hdigit
    cases hdigit
  · unfold Numeral.fractionText at hmem
    cases hf : n.fraction? with
    | none => simp [hf] at hmem
    | some digits =>
      have hmem : '\n' ∈ digits := by simpa [hf] using hmem
      rw [hn.2.2 _ hf _ hmem] at hdigit
      cases hdigit

theorem IsWordText.newline_not_mem {w : List Char} (h : IsWordText w) : '\n' ∉ w := by
  obtain ⟨c, cs, rfl, hc, hcs⟩ := h
  intro hmem
  have hpart : isWordPart '\n' = false := by decide
  rcases List.mem_cons.1 hmem with rfl | hmem
  · rw [isWordPart_of_isWordStart hc] at hpart
    cases hpart
  · rw [hcs _ hmem] at hpart
    cases hpart

/-- Only a string that is not closed goes on in another line. -/
theorem IsSpan.newline_not_mem {fault : Fault} {w rest : List Char} (h : IsSpan fault w rest)
    (hfault : fault ≠ .unterminatedString) : '\n' ∉ w := by
  cases h with
  | @invalidCharacter c _ hblank _ _ _ _ =>
    intro hmem
    rw [← List.mem_singleton.1 hmem] at hblank
    cases hblank
  | invalidNumber hlongest _ => exact hlongest.1.newline_not_mem
  | unknownWord hlongest _ => exact hlongest.1.newline_not_mem
  | unterminatedString _ => exact absurd rfl hfault

theorem IsSpan.rest_eq_nil {w rest : List Char} (h : IsSpan .unterminatedString w rest) :
    rest = [] := by
  cases h
  rfl

theorem Lexing.ofPieces_blanks (filename : String) (w : List Char) (ps : List Piece)
    (p : Position) :
    ofPieces filename p (w.map (fun _ => .blank ' ') ++ ps) =
      ofPieces filename (p.after (w.map fun _ => ' ')) ps := by
  induction w generalizing p with
  | nil => rfl
  | cons c w ih => exact ih (p.advance ' ')

theorem Position.after_spaces {w : List Char} (hw : '\n' ∉ w) (p : Position) :
    p.after (w.map fun _ => ' ') = p.after w := by
  have hspaces : '\n' ∉ w.map fun _ => ' ' := by simp
  rw [after_of_not_mem hspaces, after_of_not_mem hw, List.length_map]

/-- Masking the faults takes away the errors and nothing else. -/
theorem Lexing.ofPieces_masked (filename : String) {ps : List Piece} {text rest : List Char}
    (h : Tiles ps text rest) (hrest : rest = []) : ∀ p : Position,
    (ofPieces filename p ps).oversized? = none →
      (ofPieces filename p (ps.flatMap Piece.masked)).oversized? = none ∧
      (ofPieces filename p (ps.flatMap Piece.masked)).errors = [] ∧
      (ofPieces filename p (ps.flatMap Piece.masked)).tokens = (ofPieces filename p ps).tokens := by
  induction h with
  | nil => exact fun _ _ => ⟨rfl, rfl, rfl⟩
  | @cons piece ps text rest hfits htiles ih =>
    intro p hnone
    obtain ⟨tile, htile⟩ := Piece.exists_tile hfits hnone
    rw [Piece.ofPieces_of_tile? htile] at hnone ⊢
    obtain ⟨hnone', herrors, htokens⟩ := ih hrest (p.after piece.text) hnone
    cases herror : tile.error? with
    | none =>
      obtain ⟨hmasked, -⟩ := Piece.masked_of_no_error htile herror
      rw [List.flatMap_cons, hmasked, List.singleton_append, Piece.ofPieces_of_tile? htile]
      refine ⟨hnone', ?_, congrArg (tile.token?.toList ++ ·) htokens⟩
      rw [herror]
      exact herrors
    | some e =>
      obtain ⟨hmasked, -, -, hspan⟩ := Piece.masked_of_error hfits htile herror
      have htoken : tile.token? = none := by
        cases tile with
        | error e span => rfl
        | _ => cases herror
      rw [List.flatMap_cons, hmasked, ofPieces_blanks, htoken]
      by_cases hfault : e.fault = .unterminatedString
      · -- Nothing follows, so it does not matter that the spaces are all in one line.
        rw [hfault] at hspan
        rw [hspan.rest_eq_nil] at htiles
        rw [htiles.eq_nil]
        exact ⟨rfl, rfl, rfl⟩
      · rw [Position.after_spaces (hspan.newline_not_mem hfault)]
        exact ⟨hnone', herrors, htokens⟩

/-- A fault takes no token away and adds none. With a space in the place of every character that is
at fault, a source is lexed without an error to the same tokens in the same places. -/
theorem lex_mask_errors {source filename : String}
    (h : (lex source filename).oversized? = none) :
    let masked := maskErrors source (lex source filename).errors
    (lex masked filename).oversized? = none ∧ (lex masked filename).errors = [] ∧
      (lex masked filename).tokens = (lex source filename).tokens := by
  have htiles := tiles_pieces source.toList
  obtain ⟨hmasked, -⟩ := htiles.masked filename rfl .start h
  have hpieces := hmasked.pieces_eq
  rw [pieces, List.append_nil] at hpieces
  have htext : (maskErrors source (lex source filename).errors).toList =
      maskFrom (Lexing.ofPieces filename .start (pieces source.toList)).errors
        Position.start.offset source.toList := String.toList_ofList
  intro masked
  rw [lex, htext, hpieces]
  exact Lexing.ofPieces_masked filename htiles rfl .start h

theorem lex_mask_errors_mixed :
    (lex "(7.@or\x22\n\\\x22" "f").oversized? = none ∧
    maskErrors "(7.@or\x22\n\\\x22" (lex "(7.@or\x22\n\\\x22" "f").errors = "(   or    " ∧
    (lex "(   or    " "f").oversized? = none ∧ (lex "(   or    " "f").errors = [] ∧
    (lex "(   or    " "f").tokens = (lex "(7.@or\x22\n\\\x22" "f").tokens := by
  have h : (lex "(7.@or\x22\n\\\x22" "f").oversized? = none := by decide +kernel
  have hmasked : maskErrors "(7.@or\x22\n\\\x22" (lex "(7.@or\x22\n\\\x22" "f").errors =
      "(   or    " := by
    decide +kernel
  obtain ⟨hnone, herrors, htokens⟩ := lex_mask_errors h
  rw [hmasked] at hnone herrors htokens
  exact ⟨h, hmasked, hnone, herrors, htokens⟩

end Conditions
