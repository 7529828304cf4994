import Conditions.Lexing.Basic
import Conditions.Proofs.Pieces

/-!
# Lexing tiles the source

Every character of a source belongs to exactly one tile: a blank, a comment, the lexeme of a token
or the span of an error. The tiles lie side by side in the order of the text, and each token and
each error has one. Lexing stops short only before a whole number with too many digits.
-/

namespace Conditions

/-- The texts of words. -/
def IsWordText (w : List Char) : Prop :=
  ∃ c cs, w = c :: cs ∧ isWordStart c ∧ ∀ d ∈ cs, isWordPart d

/-- A lexeme of the kind, in front of what follows it. Numbers and words are as long as they can
be. -/
inductive IsLexeme : TokenKind → List Char → List Char → Prop where
  | delimiter {c : Char} {kind : TokenKind} {rest : List Char} :
      delimiters.lookup c = some kind → IsLexeme kind [c] rest
  | keyword {kind : TokenKind} {w rest : List Char} : Longest IsWordText w rest →
      keywords.lookup (Text.upper (String.ofList w)) = some kind → IsLexeme kind w rest
  | number {w rest : List Char} : Longest IsNumberText w rest → w.getLast? ≠ some '.' →
      IsLexeme .number w rest
  | string {body meant rest : List Char} : StringText body meant →
      IsLexeme .string (quoteMark :: body ++ [quoteMark]) rest

/-- The span of a fault, in front of what follows it. -/
inductive IsSpan : Fault → List Char → List Char → Prop where
  /-- One character, with which no blank, comment, delimiter, string, number or word begins. -/
  | invalidCharacter {c : Char} {rest : List Char} : Text.isBlank c = false → c ≠ ';' →
      delimiters.lookup c = none → c ≠ quoteMark →
      (∀ v x, c :: rest = v ++ x → ¬ IsNumberText v ∧ ¬ IsWordText v) →
      IsSpan (.invalidCharacter (String.singleton c)) [c] rest
  /-- A number that ends in its point. -/
  | invalidNumber {w rest : List Char} : Longest IsNumberText w rest → w.getLast? = some '.' →
      IsSpan (.invalidNumber (String.ofList w)) w rest
  /-- A word that is not a keyword. -/
  | unknownWord {w rest : List Char} : Longest IsWordText w rest →
      keywords.lookup (Text.upper (String.ofList w)) = none →
      IsSpan (.unknownWord (String.ofList w)) w rest
  /-- A quote that nothing closes, and all that follows it. -/
  | unterminatedString {body : List Char} : Unclosed body →
      IsSpan .unterminatedString (quoteMark :: body) []

/-- A part of a source. -/
inductive Tile where
  /-- A blank character. -/
  | blank (c : Char)
  /-- A comment. -/
  | comment (text : List Char)
  /-- A token; the tile is its lexeme. -/
  | token (t : Token)
  /-- An error with the text that is at fault. -/
  | error (e : LexicalError) (span : List Char)

namespace Tile

/-- The text of a tile. -/
def text : Tile → List Char
  | blank c => [c]
  | comment text => text
  | token t => t.lexeme.toList
  | error _ span => span

/-- The token of a tile. -/
def token? : Tile → Option Token
  | token t => some t
  | _ => none

/-- The error of a tile. -/
def error? : Tile → Option LexicalError
  | error e _ => some e
  | _ => none

/-- The tile has the shape of its kind, and its token or error is at the offset. -/
inductive StandsAt : Tile → Int → List Char → Prop where
  | blank {c : Char} {offset : Int} {rest : List Char} : Text.isBlank c →
      StandsAt (.blank c) offset rest
  | comment {body : List Char} {offset : Int} {rest : List Char} : '\n' ∉ body →
      (rest = [] ∨ rest.head? = some '\n') → StandsAt (.comment (';' :: body)) offset rest
  | token {t : Token} {l : Location} {rest : List Char} : t.location = some l →
      IsLexeme t.kind t.lexeme.toList rest → StandsAt (.token t) l.offset rest
  | error {e : LexicalError} {span rest : List Char} : IsSpan e.fault span rest →
      StandsAt (.error e span) e.location.offset rest

end Tile

/-- The text from the offset on consists of the tiles and the rest. -/
inductive Tiled : Int → List Tile → List Char → List Char → Prop where
  | nil {offset : Int} {rest : List Char} : Tiled offset [] rest rest
  | cons {offset : Int} {tile : Tile} {tiles : List Tile} {text rest : List Char} :
      tile.StandsAt offset text → Tiled (offset + tile.text.length) tiles text rest →
      Tiled offset (tile :: tiles) (tile.text ++ text) rest

/-- A whole number with more digits than can be read, in front of a text with which neither its
digits go on nor a fraction begins. -/
def IsOversized (w rest : List Char) : Prop :=
  ∃ (negative : Bool) (digits : List Char), w = (if negative then ['-'] else []) ++ digits ∧
    (∀ d ∈ digits, d.isDigit) ∧ digitLimit < digits.length ∧
    StopsAt Char.isDigit rest ∧ rest.head? ≠ some '.'

/-! ## From pieces to tiles -/

theorem Position.offset_after (p : Position) (cs : List Char) :
    (p.after cs).offset = p.offset + cs.length := by
  induction cs generalizing p with
  | nil => simp
  | cons c cs ih =>
    have hadvance : (p.advance c).offset = p.offset + 1 := by
      unfold advance
      split <;> rfl
    rw [after_cons, ih, hadvance, List.length_cons]
    omega

theorem filterMap_cons_toList {α β : Type} (f : α → Option β) (x : α) (xs : List α) :
    (x :: xs).filterMap f = (f x).toList ++ xs.filterMap f := by
  cases h : f x with
  | none => simp [h]
  | some y => simp [h]

theorem longest_isWordText {c : Char} {cs rest : List Char} (hc : isWordStart c)
    (hcs : ∀ d ∈ cs, isWordPart d) (hrest : StopsAt isWordPart rest) :
    Longest IsWordText (c :: cs) rest := by
  refine ⟨⟨c, cs, rfl, hc, hcs⟩, ?_⟩
  intro v x h hv
  rcases hv with ⟨d, ds, rfl, hd, hds⟩
  refine length_le_of_stopsAt ?_ hrest h
  intro e he
  rcases List.mem_cons.1 he with rfl | he
  · exact isWordPart_of_isWordStart hd
  · exact hds e he

/-- Where no rule of the lexer applies, no shape begins. -/
theorem BeginsNothing.isSpan {c : Char} {rest : List Char} (h : BeginsNothing c rest) :
    IsSpan (.invalidCharacter (String.singleton c)) [c] rest := by
  refine .invalidCharacter h.blank h.comment h.delimiter h.string fun v x hv => ⟨?_, ?_⟩
  · exact not_isNumberText_of_read? (hv ▸ h.number)
  · intro h
    rcases h with ⟨d, ds, rfl, hd, -⟩
    have hword := h.word
    rw [(List.cons.inj hv).1, hd] at hword
    cases hword

theorem getLast?_ne_point {w digits : List Char} (hne : digits ≠ [])
    (hdigits : ∀ d ∈ digits, d.isDigit) : (w ++ digits).getLast? ≠ some '.' := by
  rw [List.getLast?_append, List.getLast?_eq_some_getLast hne, Option.some_or]
  intro h
  have := hdigits _ (List.getLast_mem hne)
  rw [Option.some.inj h] at this
  cases this

/-- A number ends in its point if it has a point and no digits behind it. -/
theorem Numeral.getLast?_written {n : Numeral} (hn : n.WellFormed) :
    n.written.getLast? = some '.' ↔ n.fraction? = some [] := by
  rw [written_eq, fractionText]
  cases hf : n.fraction? with
  | none =>
    rw [Option.elim_none, List.append_nil]
    exact ⟨fun h => absurd h (getLast?_ne_point hn.1 hn.2.1), fun h => by cases h⟩
  | some digits =>
    cases digits with
    | nil => simp
    | cons d ds =>
      have := getLast?_ne_point (w := (if n.negative then ['-'] else []) ++ n.whole ++ ['.'])
        (List.cons_ne_nil d ds) (hn.2.2 _ hf)
      simpa using this

/-- What a piece turns out to be, where it stands; a whole number with too many digits is no
tile. -/
def Piece.tile? (filename : String) (p : Position) : Piece → Option Tile
  | blank c => some (.blank c)
  | comment text => some (.comment text)
  | lexeme (.token kind payload) text =>
    some (.token ⟨kind, String.ofList text, payload, some (p.locate filename)⟩)
  | lexeme (.fault fault) text => some (.error ⟨fault, p.locate filename⟩ text)
  | lexeme (.oversized _) _ => none

namespace Piece

variable {filename : String} {p : Position} {piece : Piece} {tile : Tile} {rest : List Char}

theorem text_of_tile? (h : piece.tile? filename p = some tile) : tile.text = piece.text := by
  cases piece with
  | blank c => cases h; rfl
  | comment text => cases h; rfl
  | lexeme reading text =>
    cases reading with
    | token kind payload => cases h; exact String.toList_ofList
    | fault fault => cases h; rfl
    | oversized e => cases h

theorem ofPieces_of_tile? (h : piece.tile? filename p = some tile) (ps : List Piece) :
    Lexing.ofPieces filename p (piece :: ps) =
      let lexing := Lexing.ofPieces filename (p.after piece.text) ps
      { lexing with
        tokens := tile.token?.toList ++ lexing.tokens
        errors := tile.error?.toList ++ lexing.errors } := by
  cases piece with
  | blank c => cases h; rfl
  | comment text => cases h; rfl
  | lexeme reading text =>
    cases reading with
    | token kind payload => cases h; rfl
    | fault fault => cases h; rfl
    | oversized e => cases h

theorem standsAt_token {kind : TokenKind} {payload : Tree} {w : List Char}
    (h : IsLexeme kind w rest) :
    (Tile.token ⟨kind, String.ofList w, payload, some (p.locate filename)⟩).StandsAt p.offset
      rest :=
  .token (l := p.locate filename) rfl (by rwa [String.toList_ofList])

theorem standsAt_error {fault : Fault} {w : List Char} (h : IsSpan fault w rest) :
    (Tile.error ⟨fault, p.locate filename⟩ w).StandsAt p.offset rest :=
  .error (e := ⟨fault, p.locate filename⟩) h

theorem standsAt_of_fits (hfits : piece.Fits rest) (h : piece.tile? filename p = some tile) :
    tile.StandsAt p.offset rest := by
  cases hfits with
  | blank hblank =>
    cases h
    exact .blank hblank
  | comment hbody hrest =>
    cases h
    refine .comment (fun hmem => ?_) ?_
    · have := hbody _ hmem
      simp [inLine] at this
    · cases rest with
      | nil => exact Or.inl rfl
      | cons c rest =>
        have := hrest c rfl
        exact Or.inr (by simpa [inLine] using this)
  | delimiter hkind =>
    cases h
    exact standsAt_token (.delimiter hkind)
  | @numeral n _ hn hrest =>
    have hlongest := longest_written hn hrest
    have hpoint := Numeral.getLast?_written hn
    unfold Numeral.reading at h
    split at h
    · next hf =>
      cases h
      exact standsAt_error (.invalidNumber hlongest (hpoint.2 hf))
    · next digits hne hf =>
      cases h
      refine standsAt_token (.number hlongest fun hlast => hne ?_)
      exact Option.some.inj (hf.symm.trans (hpoint.1 hlast))
    · next hf =>
      split at h
      · cases h
        refine standsAt_token (.number hlongest fun hlast => ?_)
        cases hf.symm.trans (hpoint.1 hlast)
      · cases h
  | string hw =>
    cases h
    exact standsAt_token (.string hw)
  | unclosed hw =>
    cases h
    exact standsAt_error (.unterminatedString hw)
  | @word c cs _ hc hcs hrest =>
    have hlongest := longest_isWordText hc hcs hrest
    unfold readWord at h
    split at h
    · next kind hkind =>
      cases h
      exact standsAt_token (.keyword hlongest hkind)
    · next hkind =>
      cases h
      exact standsAt_error (.unknownWord hlongest hkind)
  | invalid hc =>
    cases h
    exact standsAt_error hc.isSpan

/-- The only pieces that are no tiles are whole numbers with too many digits. -/
theorem oversized_of_tile?_eq_none (hfits : piece.Fits rest) (h : piece.tile? filename p = none) :
    ∃ e, piece = .lexeme (.oversized e) piece.text ∧ IsOversized piece.text rest := by
  cases hfits with
  | blank _ => cases h
  | comment _ _ => cases h
  | delimiter _ => cases h
  | string _ => cases h
  | unclosed _ => cases h
  | invalid _ => cases h
  | word _ _ _ =>
    unfold readWord at h
    split at h <;> cases h
  | @numeral n _ hn hrest =>
    unfold Numeral.reading at h
    split at h
    · cases h
    · cases h
    · next hf =>
      split at h
      · cases h
      · next e he =>
        have hlimit : digitLimit < n.whole.length := by
          unfold readInteger at he
          split at he
          · assumption
          · cases he
        refine ⟨e, ?_, n.negative, n.whole, ?_, hn.2.1, hlimit, hrest.1, hrest.2 hf⟩
        · simp only [text, Numeral.reading, hf, he]
        · rw [text, Numeral.written_eq, Numeral.fractionText, hf, Option.elim_none, List.append_nil]

end Piece

/-! ## The order of the tiles -/

section
variable {w rest : List Char}

theorem IsWordText.ne_nil (h : IsWordText w) : w ≠ [] := by
  obtain ⟨c, cs, rfl, -⟩ := h
  exact List.cons_ne_nil c cs

theorem IsNumberText.ne_nil (h : IsNumberText w) : w ≠ [] := by
  obtain ⟨n, hn, rfl⟩ := h
  obtain ⟨c, cs, hw, -⟩ := Numeral.head_written hn
  exact hw ▸ List.cons_ne_nil c cs

theorem IsLexeme.ne_nil {kind : TokenKind} (h : IsLexeme kind w rest) : w ≠ [] := by
  cases h with
  | delimiter _ => exact List.cons_ne_nil _ _
  | keyword hlongest _ => exact hlongest.1.ne_nil
  | number hlongest _ => exact hlongest.1.ne_nil
  | string _ => exact List.cons_ne_nil _ _

theorem IsSpan.ne_nil {fault : Fault} (h : IsSpan fault w rest) : w ≠ [] := by
  cases h with
  | invalidCharacter _ _ _ _ _ => exact List.cons_ne_nil _ _
  | invalidNumber hlongest _ => exact hlongest.1.ne_nil
  | unknownWord hlongest _ => exact hlongest.1.ne_nil
  | unterminatedString _ => exact List.cons_ne_nil _ _

end

namespace Tile.StandsAt

variable {offset : Int} {rest : List Char}

theorem text_ne_nil {tile : Tile} (h : tile.StandsAt offset rest) : tile.text ≠ [] := by
  cases h with
  | blank _ => exact List.cons_ne_nil _ _
  | comment _ _ => exact List.cons_ne_nil _ _
  | token _ hlexeme => exact hlexeme.ne_nil
  | error hspan => exact hspan.ne_nil

theorem location_eq {t : Token} (h : (Tile.token t).StandsAt offset rest) :
    ∃ l, t.location = some l ∧ l.offset = offset := by
  cases h with
  | token hl _ => exact ⟨_, hl, rfl⟩

theorem offset_eq {e : LexicalError} {span : List Char}
    (h : (Tile.error e span).StandsAt offset rest) : e.location.offset = offset := by
  cases h with
  | error _ => rfl

/-- Nothing follows a quote that is not closed. -/
theorem fault_ne {e : LexicalError} {span : List Char}
    (h : (Tile.error e span).StandsAt offset rest) (hrest : rest ≠ []) :
    e.fault ≠ .unterminatedString := by
  cases h with
  | error hspan =>
    intro hfault
    rw [hfault] at hspan
    cases hspan
    exact hrest rfl

end Tile.StandsAt

namespace Tiled

variable {offset : Int} {tiles : List Tile} {text rest : List Char}

theorem text_eq (h : Tiled offset tiles text rest) :
    text = (tiles.map Tile.text).flatten ++ rest := by
  induction h with
  | nil => rfl
  | cons _ _ ih => rw [List.map_cons, List.flatten_cons, List.append_assoc, ← ih]

/-- Every tile stands at its offset, which is not before the start. -/
theorem exists_standsAt (h : Tiled offset tiles text rest) :
    ∀ tile ∈ tiles, ∃ n after, tile.StandsAt n after ∧ offset ≤ n := by
  induction h with
  | nil => exact List.forall_mem_nil _
  | cons hstands _ ih =>
    intro tile htile
    rcases List.mem_cons.1 htile with rfl | htile
    · exact ⟨_, _, hstands, Int.le_refl _⟩
    · obtain ⟨n, after, hn, hle⟩ := ih tile htile
      exact ⟨n, after, hn, by omega⟩

/-- A tile stands before the tiles behind it, and some text follows it if there are any. -/
theorem pairwise_standsAt (h : Tiled offset tiles text rest) :
    tiles.Pairwise fun a b => ∃ m n after after', a.StandsAt m after ∧ after ≠ [] ∧
      b.StandsAt n after' ∧ m < n := by
  induction h with
  | nil => exact .nil
  | @cons offset tile tiles text rest hstands htiled ih =>
    refine .cons (fun b hb => ?_) ih
    obtain ⟨n, after, hn, hle⟩ := htiled.exists_standsAt b hb
    have hpos : 0 < tile.text.length := List.length_pos_iff.2 hstands.text_ne_nil
    have htext : text ≠ [] := by
      obtain ⟨x, y, rfl⟩ := List.append_of_mem hb
      rw [htiled.text_eq]
      simp [hn.text_ne_nil]
    exact ⟨offset, n, text, after, hstands, htext, hn, by omega⟩

theorem tokens_pairwise (h : Tiled offset tiles text rest) :
    (tiles.filterMap Tile.token?).Pairwise fun t t' => ∃ l l', t.location = some l ∧
      t'.location = some l' ∧ l.offset < l'.offset := by
  refine h.pairwise_standsAt.filterMap _ ?_
  intro a b h t ht t' ht'
  rcases h with ⟨m, n, after, after', ha, -, hb, hlt⟩
  cases a <;> cases ht
  cases b <;> cases ht'
  obtain ⟨l, hl, rfl⟩ := ha.location_eq
  obtain ⟨l', hl', rfl⟩ := hb.location_eq
  exact ⟨l, l', hl, hl', hlt⟩

theorem errors_pairwise (h : Tiled offset tiles text rest) :
    (tiles.filterMap Tile.error?).Pairwise fun e e' => e.location.offset < e'.location.offset ∧
      e.fault ≠ .unterminatedString := by
  refine h.pairwise_standsAt.filterMap _ ?_
  intro a b h e he e' he'
  rcases h with ⟨m, n, after, after', ha, hafter, hb, hlt⟩
  cases a <;> cases he
  cases b <;> cases he'
  rw [ha.offset_eq, hb.offset_eq]
  exact ⟨hlt, ha.fault_ne hafter⟩

end Tiled

/-! ## Whole sources -/

/-- Lexing pieces that fit either finds a tile for each of them, or stops before a whole number with
too many digits. -/
theorem Lexing.ofPieces_tiles (filename : String) {ps : List Piece} {text rest : List Char}
    (h : Tiles ps text rest) : ∀ p : Position,
      (∃ tiles, Tiled p.offset tiles text rest ∧
        ofPieces filename p ps = ⟨tiles.filterMap Tile.token?, tiles.filterMap Tile.error?,
          p.after (tiles.map Tile.text).flatten, none⟩) ∨
      (∃ e tiles w rest', Tiled p.offset tiles text (w ++ rest') ∧ IsOversized w rest' ∧
        (ofPieces filename p ps).oversized? = some e) := by
  induction h with
  | nil => exact fun p => Or.inl ⟨[], .nil, rfl⟩
  | @cons piece ps text rest hfits _ ih =>
    intro p
    cases htile : piece.tile? filename p with
    | none =>
      obtain ⟨e, hpiece, hoversized⟩ := Piece.oversized_of_tile?_eq_none hfits htile
      refine Or.inr ⟨e, [], piece.text, text, .nil, hoversized, ?_⟩
      rw [hpiece]
      rfl
    | some tile =>
      have htext := Piece.text_of_tile? htile
      have hstands := Piece.standsAt_of_fits hfits htile
      have hoffset : (p.after piece.text).offset = p.offset + tile.text.length := by
        rw [htext, Position.offset_after]
      rw [Piece.ofPieces_of_tile? htile]
      rcases ih (p.after piece.text) with
        ⟨tiles, htiled, heq⟩ | ⟨e, tiles, w, rest', htiled, hw, heq⟩
      · refine Or.inl ⟨tile :: tiles, ?_, ?_⟩
        · rw [← htext]
          exact .cons hstands (hoffset ▸ htiled)
        · rw [heq, filterMap_cons_toList, filterMap_cons_toList, List.map_cons, List.flatten_cons,
            Position.after_append, htext]
      · refine Or.inr ⟨e, tile :: tiles, w, rest', ?_, hw, heq⟩
        rw [← htext]
        exact .cons hstands (hoffset ▸ htiled)

/-- No run of digits in the text is longer than a whole number may be. -/
def DigitRunsBounded (text : List Char) : Prop :=
  ∀ digits, digits <:+: text → (∀ d ∈ digits, d.isDigit) → digits.length ≤ digitLimit

theorem DigitRunsBounded.not_isOversized {before w rest : List Char}
    (h : DigitRunsBounded (before ++ (w ++ rest))) : ¬ IsOversized w rest := by
  intro h
  rcases h with ⟨negative, digits, rfl, hdigits, hlimit, -⟩
  refine Nat.not_le.2 hlimit (h digits ?_ hdigits)
  exact ⟨before ++ (if negative then ['-'] else []), rest, by simp⟩

theorem digitRunsBounded_of_length_le {text : List Char} (h : text.length ≤ digitLimit) :
    DigitRunsBounded text :=
  fun _ hinfix _ => Nat.le_trans hinfix.length_le h

/-- Lexing a source finds a tile for each of its parts, or stops before a whole number with too many
digits. -/
theorem lex_tiles (source filename : String) :
    (∃ tiles, Tiled 0 tiles source.toList [] ∧
      lex source filename = ⟨tiles.filterMap Tile.token?, tiles.filterMap Tile.error?,
        Position.start.after source.toList, none⟩) ∨
    (∃ e tiles w rest, Tiled 0 tiles source.toList (w ++ rest) ∧ IsOversized w rest ∧
      (lex source filename).oversized? = some e) := by
  rcases Lexing.ofPieces_tiles filename (tiles_pieces source.toList) .start with
    ⟨tiles, htiled, heq⟩ | h
  · refine Or.inl ⟨tiles, htiled, ?_⟩
    have htext := htiled.text_eq
    rw [List.append_nil] at htext
    rw [lex, heq, ← htext]
  · exact Or.inr h

/-- Without errors a source has its tokens; otherwise it has the error that comes first. -/
theorem tokenize_of_tiled {source filename : String} {tiles : List Tile} {stop : Position}
    (h : Tiled 0 tiles source.toList [])
    (hlex : lex source filename =
      ⟨tiles.filterMap Tile.token?, tiles.filterMap Tile.error?, stop, none⟩) :
    (tiles.filterMap Tile.error? = [] →
      tokenize source filename = .ok (tiles.filterMap Tile.token?)) ∧
    (tiles.filterMap Tile.error? ≠ [] → ∃ e ∈ tiles.filterMap Tile.error?,
      tokenize source filename = .error (.lexical e) ∧
      ∀ e' ∈ tiles.filterMap Tile.error?, e.location.offset ≤ e'.location.offset) := by
  have hpairwise := h.errors_pairwise
  rw [tokenize, hlex]
  cases herrors : tiles.filterMap Tile.error? with
  | nil => exact ⟨fun _ => rfl, fun hne => absurd rfl hne⟩
  | cons e es =>
    rw [herrors] at hpairwise
    refine ⟨fun h => (by cases h), fun _ => ⟨e, List.mem_cons_self, rfl, fun e' he' => ?_⟩⟩
    rcases List.mem_cons.1 he' with rfl | he'
    · exact Int.le_refl _
    · exact Int.le_of_lt (List.rel_of_pairwise_cons hpairwise he').1

/-- Lexing tiles a source in which no run of digits is too long. The run goes to the end of the
source. Every character lies in just one tile, and every token and every error has one of its own,
at the offset where it says it is; numbers and words are as long as they can be. Tokens and errors
come in the order of the text, nothing but a last error can be an unterminated string, and the first
error is what a source with errors has in place of its tokens. -/
theorem lex_tiles_source (source filename : String) (h : DigitRunsBounded source.toList) :
    (lex source filename).oversized? = none ∧
    (lex source filename).stop.offset = source.length ∧
    (∃ tiles, Tiled 0 tiles source.toList [] ∧ source.toList = (tiles.map Tile.text).flatten ∧
      (lex source filename).tokens = tiles.filterMap Tile.token? ∧
      (lex source filename).errors = tiles.filterMap Tile.error?) ∧
    (lex source filename).tokens.Pairwise (fun t t' => ∃ l l', t.location = some l ∧
      t'.location = some l' ∧ l.offset < l'.offset) ∧
    (lex source filename).errors.Pairwise (fun e e' => e.location.offset < e'.location.offset) ∧
    (∀ before e after, (lex source filename).errors = before ++ e :: after →
      e.fault = .unterminatedString → after = []) ∧
    ((lex source filename).errors = [] →
      tokenize source filename = .ok (lex source filename).tokens) ∧
    ((lex source filename).errors ≠ [] → ∃ e ∈ (lex source filename).errors,
      tokenize source filename = .error (.lexical e) ∧
      ∀ e' ∈ (lex source filename).errors, e.location.offset ≤ e'.location.offset) := by
  rcases lex_tiles source filename with ⟨tiles, htiled, hlex⟩ | ⟨e, tiles, w, rest, htiled, hw, -⟩
  · have htokenize := tokenize_of_tiled htiled hlex
    have hpairwise := htiled.errors_pairwise
    have htext := htiled.text_eq
    rw [List.append_nil] at htext
    rw [hlex]
    refine ⟨rfl, ?_, ⟨tiles, htiled, htext, rfl, rfl⟩, htiled.tokens_pairwise,
      hpairwise.imp And.left, ?_, htokenize.1, htokenize.2⟩
    · rw [Position.offset_after, String.length_toList]
      exact Int.zero_add _
    · intro before e after herrors hfault
      have herrors : tiles.filterMap Tile.error? = before ++ e :: after := herrors
      rw [herrors] at hpairwise
      cases after with
      | nil => rfl
      | cons e' after =>
        have hcons := (List.pairwise_append.1 hpairwise).2.1
        exact absurd hfault (List.rel_of_pairwise_cons hcons List.mem_cons_self).2
  · rw [htiled.text_eq] at h
    exact absurd hw h.not_isOversized

theorem lex_tiles_source_unclosed :
    DigitRunsBounded "(or 7. \x22a".toList ∧ (lex "(or 7. \x22a" "f").oversized? = none ∧
    (lex "(or 7. \x22a" "f").stop.offset = 9 ∧
    ∃ tiles, Tiled 0 tiles "(or 7. \x22a".toList [] ∧
      (lex "(or 7. \x22a" "f").tokens = tiles.filterMap Tile.token? ∧
      (lex "(or 7. \x22a" "f").errors = tiles.filterMap Tile.error? := by
  have h : DigitRunsBounded "(or 7. \x22a".toList := digitRunsBounded_of_length_le (by decide)
  obtain ⟨hnone, hstop, ⟨tiles, htiled, -, htokens, herrors⟩, -⟩ :=
    lex_tiles_source "(or 7. \x22a" "f" h
  exact ⟨h, hnone, hstop, tiles, htiled, htokens, herrors⟩

end Conditions
