import Conditions.Proofs.Building
import Conditions.Proofs.Tiling
import Mathlib.Data.List.Induction

/-!
# Reading source texts

The tokens of a source carry values of the right type, so a source is read to a condition, or it is
refused because of a lexical error or a parse error. There is one way out of this: a whole number
with too many digits is no lexical error, and it ends the reading wherever it is reached.
-/

namespace Conditions

/-! ## The tokens of a source -/

theorem TokenKind.isLiteral_of_lookup {α : Type} [BEq α] [LawfulBEq α]
    {entries : List (α × TokenKind)} {a : α} {kind : TokenKind}
    (hentries : ∀ entry ∈ entries, entry.2.isLiteral = false)
    (h : entries.lookup a = some kind) : kind.isLiteral = false := by
  obtain ⟨before, after, rfl, -⟩ := List.lookup_eq_some_iff.1 h
  exact hentries (a, kind) (by simp)

theorem Token.wellTyped_of_isLiteral {t : Token} (h : t.kind.isLiteral = false) : t.WellTyped := by
  constructor
  · intro hkind
    rw [hkind] at h
    cases h
  · intro hkind
    rw [hkind] at h
    cases h

/-- A number is written with no more digits than it was read from. -/
theorem length_decimalDigits_digitsValue_le {digits : List Char} (hne : digits ≠ [])
    (h : ∀ d ∈ digits, d.isDigit) :
    (decimalDigits (digitsValue digits)).length ≤ digits.length := by
  have hpos : 0 < digits.length := List.length_pos_iff.mpr hne
  rw [decimalDigits, Nat.length_toDigits_le_iff (by decide) hpos]
  clear hne hpos
  induction digits using List.reverseRecOn with
  | nil => decide
  | append_singleton digits d ih =>
    rw [List.forall_mem_append, List.forall_mem_singleton] at h
    have hvalue : digitsValue (digits ++ [d]) =
        10 * digitsValue digits + (d.toNat - '0'.toNat) := by
      simp [digitsValue]
    have hdigit : d.toNat ≤ 0x39 := (toNat_of_isDigit h.2).2
    have hzero : '0'.toNat = 0x30 := rfl
    have := ih h.1
    rw [hvalue, List.length_append, List.length_singleton, Nat.pow_succ]
    omega

/-- What has been read can be written. -/
theorem withinDigitLimit_of_readInteger {negative : Bool} {digits : List Char} {n : Int}
    (hne : digits ≠ []) (hdigits : ∀ d ∈ digits, d.isDigit)
    (h : readInteger negative digits = .ok n) : WithinDigitLimit n := by
  unfold readInteger at h
  split at h
  · cases h
  · next hlimit =>
    have habs : n.natAbs = digitsValue digits := by
      cases h
      cases negative <;> simp
    rw [WithinDigitLimit, habs]
    exact Nat.le_trans (length_decimalDigits_digitsValue_le hne hdigits) (Nat.not_lt.mp hlimit)

/-- Keywords and delimiters carry no value. -/
def Token.Plain (t : Token) : Prop :=
  t.kind.isLiteral = false → t.payload = .absent

/-- A token without a value can be shown, and so can a text. -/
theorem Token.showable_of_wholeNumbers_eq_nil {t : Token} (h : t.payload.wholeNumbers = []) :
    t.Showable :=
  Or.inr (by simp [h])

/-- What is known of the value of a token from the way it is lexed. -/
structure Token.Lexed (t : Token) : Prop where
  wellTyped : t.WellTyped
  plain : t.Plain
  showable : t.Showable

namespace Token.Lexed

theorem of_plain {t : Token} (hkind : t.kind.isLiteral = false) (h : t.payload = .absent) :
    t.Lexed :=
  ⟨wellTyped_of_isLiteral hkind, fun _ => h, showable_of_wholeNumbers_eq_nil (by rw [h]; rfl)⟩

theorem of_number {t : Token} {x : Number} (hkind : t.kind = .number) (h : t.payload = .number x)
    (hlimit : ∀ n ∈ x.wholeNumbers, WithinDigitLimit n) : t.Lexed where
  wellTyped := ⟨fun _ => ⟨x, h⟩, fun hstring => (by rw [hkind] at hstring; cases hstring)⟩
  plain hplain := by
    rw [hkind] at hplain
    cases hplain
  showable := Or.inr (by rw [h]; exact hlimit)

theorem of_string {t : Token} {s : String} (hkind : t.kind = .string) (h : t.payload = .text s) :
    t.Lexed where
  wellTyped := ⟨fun hnumber => (by rw [hkind] at hnumber; cases hnumber), fun _ => ⟨s, h⟩⟩
  plain hplain := by
    rw [hkind] at hplain
    cases hplain
  showable := showable_of_wholeNumbers_eq_nil (by rw [h]; rfl)

end Token.Lexed

theorem Piece.lexed_of_fits {filename : String} {p : Position} {piece : Piece}
    {rest : List Char} {t : Token} (hfits : piece.Fits rest)
    (h : piece.tile? filename p = some (.token t)) : t.Lexed := by
  cases hfits with
  | blank _ => cases h
  | comment _ _ => cases h
  | unclosed _ => cases h
  | invalid _ => cases h
  | delimiter hkind =>
    cases h
    exact .of_plain (TokenKind.isLiteral_of_lookup (by decide) hkind) rfl
  | string _ =>
    cases h
    exact .of_string rfl rfl
  | word _ _ _ =>
    unfold readWord at h
    split at h
    · next kind hkind =>
      cases h
      exact .of_plain (TokenKind.isLiteral_of_lookup (by decide) hkind) rfl
    · cases h
  | @numeral n _ hn _ =>
    unfold Numeral.reading at h
    split at h
    · cases h
    · cases h
      exact .of_number rfl rfl (List.forall_mem_nil _)
    · split at h
      · next value hvalue =>
        cases h
        have hlimit := withinDigitLimit_of_readInteger hn.1 hn.2.1 hvalue
        exact .of_number rfl rfl (List.forall_mem_singleton.mpr hlimit)
      · cases h

/-- What holds of the token of every piece that fits holds of all tokens. -/
theorem Lexing.forall_tokens_ofPieces (filename : String) {ps : List Piece} {text rest : List Char}
    (h : Tiles ps text rest) {P : Token → Prop}
    (hP : ∀ (piece : Piece) (rest : List Char) (p : Position) (t : Token), piece.Fits rest →
      piece.tile? filename p = some (.token t) → P t) :
    ∀ p : Position, ∀ t ∈ (ofPieces filename p ps).tokens, P t := by
  induction h with
  | nil => exact fun _ => List.forall_mem_nil _
  | @cons piece ps text rest hfits _ ih =>
    intro p t ht
    cases htile : piece.tile? filename p with
    | none =>
      obtain ⟨e, hpiece, -⟩ := Piece.oversized_of_tile?_eq_none hfits htile
      rw [hpiece] at ht
      cases ht
    | some tile =>
      rw [Piece.ofPieces_of_tile? htile] at ht
      rcases List.mem_append.1 ht with ht | ht
      · cases tile with
        | token t' =>
          cases List.mem_singleton.1 ht
          exact hP _ _ _ _ hfits htile
        | _ => cases ht
      · exact ih _ t ht

theorem lexed_of_lex (source filename : String) :
    ∀ t ∈ (lex source filename).tokens, t.Lexed :=
  Lexing.forall_tokens_ofPieces filename (tiles_pieces source.toList)
    (fun _ _ _ _ => Piece.lexed_of_fits) .start

/-! ## Tiles in their place -/

theorem stopsAt_of_longest_isWordText {w rest : List Char} (h : Longest IsWordText w rest) :
    StopsAt isWordPart rest := by
  intro d hd
  obtain ⟨r, rfl⟩ := List.head?_eq_some_iff.1 hd
  obtain ⟨⟨c, cs, rfl, hc, hcs⟩, hmax⟩ := h
  refine Bool.eq_false_iff.2 fun hpart => ?_
  have hlonger : IsWordText (c :: (cs ++ [d])) := by
    refine ⟨c, cs ++ [d], rfl, hc, fun e he => ?_⟩
    rcases List.mem_append.1 he with he | he
    · exact hcs e he
    · rw [List.mem_singleton.1 he]
      exact hpart
  have := hmax (c :: (cs ++ [d])) r (by simp) hlonger
  simp only [List.length_cons, List.length_append, List.length_nil] at this
  omega

/-- The longest number in front of a text is the literal that is read there. -/
theorem exists_numeral_of_longest {w rest : List Char} (h : Longest IsNumberText w rest) :
    ∃ n : Numeral, n.WellFormed ∧ n.EndsBefore rest ∧ n.written = w := by
  obtain ⟨⟨m, hm, rfl⟩, hmax⟩ := h
  cases hread : Numeral.read? (m.written ++ rest) with
  | none => exact absurd hread (Numeral.read?_ne_none hm)
  | some read =>
    obtain ⟨n, r⟩ := read
    obtain ⟨hn, hr⟩ := Numeral.wellFormed_of_read? hread
    have htext := Numeral.written_append_of_read? hread
    have hle := Numeral.length_written_le hn hr hm htext
    have hge := hmax n.written r htext.symm ⟨n, hn, rfl⟩
    obtain ⟨hw, rfl⟩ := List.append_inj htext (Nat.le_antisymm hge hle)
    exact ⟨n, hn, hr, hw⟩

section
variable {w rest : List Char}

theorem IsLexeme.exists_fits {kind : TokenKind} (h : IsLexeme kind w rest) :
    ∃ piece : Piece, piece.Fits rest ∧ piece.text = w := by
  cases h with
  | delimiter hkind => exact ⟨_, .delimiter hkind, rfl⟩
  | keyword hlongest _ =>
    have hrest := stopsAt_of_longest_isWordText hlongest
    obtain ⟨c, cs, rfl, hc, hcs⟩ := hlongest.1
    exact ⟨_, .word hc hcs hrest, rfl⟩
  | number hlongest _ =>
    obtain ⟨n, hn, hrest, rfl⟩ := exists_numeral_of_longest hlongest
    exact ⟨_, .numeral hn hrest, rfl⟩
  | string hbody => exact ⟨_, .string hbody, rfl⟩

theorem IsSpan.exists_fits {fault : Fault} (h : IsSpan fault w rest) :
    ∃ piece : Piece, piece.Fits rest ∧ piece.text = w := by
  cases h with
  | @invalidCharacter c _ hblank hcomment hdelimiter hstring hnothing =>
    refine ⟨_, .invalid ⟨hblank, hcomment, hdelimiter, ?_, hstring, ?_⟩, rfl⟩
    · cases hread : Numeral.read? (c :: rest) with
      | none => rfl
      | some read =>
        have htext := Numeral.written_append_of_read? hread
        have hn := (Numeral.wellFormed_of_read? hread).1
        exact absurd ⟨_, hn, rfl⟩ (hnothing _ _ htext.symm).1
    · refine Bool.eq_false_iff.2 fun hc => ?_
      exact (hnothing [c] rest rfl).2 ⟨c, [], rfl, hc, List.forall_mem_nil _⟩
  | invalidNumber hlongest _ =>
    obtain ⟨n, hn, hrest, rfl⟩ := exists_numeral_of_longest hlongest
    exact ⟨_, .numeral hn hrest, rfl⟩
  | unknownWord hlongest _ =>
    have hrest := stopsAt_of_longest_isWordText hlongest
    obtain ⟨c, cs, rfl, hc, hcs⟩ := hlongest.1
    exact ⟨_, .word hc hcs hrest, rfl⟩
  | unterminatedString hbody => exact ⟨_, .unclosed hbody, rfl⟩

theorem Tile.StandsAt.exists_fits {tile : Tile} {offset : Int} (h : tile.StandsAt offset rest) :
    ∃ piece : Piece, piece.Fits rest ∧ piece.text = tile.text := by
  cases h with
  | blank hblank => exact ⟨_, .blank hblank, rfl⟩
  | @comment body _ _ hbody hrest =>
    refine ⟨_, .comment (fun c hc => ?_) (fun c hc => ?_), rfl⟩
    · have hne : c ≠ '\n' := fun heq => hbody (heq ▸ hc)
      simp [inLine, hne]
    · rcases hrest with rfl | hrest
      · cases hc
      · rw [hrest] at hc
        cases hc
        rfl
  | token _ hlexeme => exact hlexeme.exists_fits
  | error hspan => exact hspan.exists_fits

/-- A text is cut into pieces where it is cut into tiles. -/
theorem Tiled.exists_tiles {offset : Int} {tiles : List Tile} {text : List Char}
    (h : Tiled offset tiles text rest) : ∃ ps, Tiles ps text rest := by
  induction h with
  | nil => exact ⟨[], .nil⟩
  | cons hstands _ ih =>
    obtain ⟨ps, hps⟩ := ih
    obtain ⟨piece, hfits, htext⟩ := hstands.exists_fits
    exact ⟨piece :: ps, htext ▸ .cons hfits hps⟩

end

/-! ## Numbers that cannot be read -/

/-- The text falls into tiles up to a whole number with too many digits. -/
def ReachesOversized (text : List Char) : Prop :=
  ∃ tiles w rest, Tiled 0 tiles text (w ++ rest) ∧ IsOversized w rest

theorem Piece.fits_oversized (negative : Bool) {digits rest : List Char}
    (hdigits : ∀ d ∈ digits, d.isDigit) (hlimit : digitLimit < digits.length)
    (hstops : StopsAt Char.isDigit rest) (hpoint : rest.head? ≠ some '.') :
    (Piece.lexeme (.oversized ⟨digits.length⟩) ((if negative then ['-'] else []) ++ digits)).Fits
      rest := by
  have hne : digits ≠ [] := List.ne_nil_of_length_pos (Nat.zero_lt_of_lt hlimit)
  have hn : Numeral.WellFormed ⟨negative, digits, none⟩ := ⟨hne, hdigits, fun _ h => by cases h⟩
  have hrest : Numeral.EndsBefore ⟨negative, digits, none⟩ rest := ⟨hstops, fun _ => hpoint⟩
  simpa [Numeral.reading, readInteger, hlimit, Numeral.written] using Fits.numeral hn hrest

theorem Lexing.oversized?_of_mem (filename : String) {e : OversizedNumber} {w : List Char}
    {ps : List Piece} (h : .lexeme (.oversized e) w ∈ ps) (p : Position) :
    ∃ e', (ofPieces filename p ps).oversized? = some e' := by
  induction ps generalizing p with
  | nil => cases h
  | cons piece ps ih =>
    rcases List.mem_cons.1 h with rfl | hmem
    · exact ⟨e, rfl⟩
    · cases piece with
      | blank c => exact ih hmem _
      | comment text => exact ih hmem _
      | lexeme reading text =>
        cases reading with
        | token kind payload => exact ih hmem _
        | fault fault => exact ih hmem _
        | oversized e' => exact ⟨e', rfl⟩

/-- Lexing breaks off just where the source reaches a whole number with too many digits. -/
theorem lex_oversized?_iff (source filename : String) :
    (∃ e, (lex source filename).oversized? = some e) ↔ ReachesOversized source.toList := by
  constructor
  · intro h
    rcases h with ⟨e, he⟩
    rcases lex_tiles source filename with ⟨tiles, -, hlex⟩ | ⟨-, tiles, w, rest, htiled, hw, -⟩
    · rw [hlex] at he
      cases he
    · exact ⟨tiles, w, rest, htiled, hw⟩
  · intro h
    rcases h with ⟨tiles, w, rest, htiled, hw⟩
    obtain ⟨ps, hps⟩ := htiled.exists_tiles
    obtain ⟨negative, digits, rfl, hdigits, hlimit, hstops, hpoint⟩ := hw
    have hfits := Piece.fits_oversized negative hdigits hlimit hstops hpoint
    have hmem : .lexeme (.oversized ⟨digits.length⟩) ((if negative then ['-'] else []) ++ digits) ∈
        pieces source.toList := by
      rw [(hps.append (.cons hfits .nil)).pieces_eq]
      simp
    exact Lexing.oversized?_of_mem filename hmem .start

/-! ## How reading ends -/

section
variable {source filename : String}

theorem tokenize_eq_oversized_iff {e : OversizedNumber} :
    tokenize source filename = .error (.oversized e) ↔
      (lex source filename).oversized? = some e := by
  unfold tokenize
  generalize lex source filename = lexing
  obtain ⟨tokens, errors, stop, oversized?⟩ := lexing
  cases oversized? with
  | some e' => simp
  | none => cases errors <;> simp

theorem readSource_of_tokenize {tokens : List Token} (h : tokenize source filename = .ok tokens) :
    readSource source filename = (read .condition tokens.toArray).mapError .read := by
  rw [readSource, h]
  rfl

theorem readSource_eq_source_iff {e : SourceError} :
    readSource source filename = .error (.source e) ↔ tokenize source filename = .error e := by
  cases htokenize : tokenize source filename with
  | ok tokens =>
    rw [readSource_of_tokenize htokenize]
    constructor
    · intro h
      cases hread : read .condition tokens.toArray <;> rw [hread] at h <;> cases h
    · intro h
      cases h
  | error e' =>
    have hread : readSource source filename = .error (.source e') := by
      rw [readSource, htokenize]
      rfl
    rw [hread]
    simp

/-- A source whose tokens are a condition is read as that condition. -/
theorem readSource_of_derives {tokens : List Token} {tree : Tree} {c : Condition}
    (h : tokenize source filename = .ok tokens) (htree : Derives .condition tokens tree)
    (hc : tree.toCondition = .ok c) : readSource source filename = .ok (.condition c) := by
  have hread : read .condition tokens.toArray = (Goal.condition.build tree).mapError .build :=
    read_of_derives htree
  rw [readSource_of_tokenize h, hread, Goal.build, hc]
  rfl

end

/-- Reading a source ends in one of four ways. A whole number with too many digits ends it if the
source reaches one, whatever else is wrong with the source. Otherwise it ends with the lexical error
that has the least offset if there is any, with a parse error if the tokens are not one condition,
and with the condition of their tree if they are. Whatever the tokens of a source derive stands for
a node. -/
theorem readSource_ends (source filename : String) :
    ((∃ e, readSource source filename = .error (.source (.oversized e))) ↔
      ReachesOversized source.toList) ∧
    (¬ ReachesOversized source.toList →
      ((lex source filename).errors ≠ [] → ∃ e ∈ (lex source filename).errors,
        readSource source filename = .error (.source (.lexical e)) ∧
        ∀ e' ∈ (lex source filename).errors, e.location.offset ≤ e'.location.offset) ∧
      ((lex source filename).errors = [] →
        ((∀ tree, ¬ Derives .condition (lex source filename).tokens tree) →
          ∃ e, readSource source filename = .error (.read (.parse e))) ∧
        (∀ tree, Derives .condition (lex source filename).tokens tree →
          ∃ c, tree.toCondition = .ok c ∧ readSource source filename = .ok (.condition c)))) ∧
    (∀ goal w tree, (∀ t ∈ w, t ∈ (lex source filename).tokens) →
      Derives (Goal.production goal) w tree → ∃ node, goal.build tree = .ok node) := by
  refine ⟨?_, ?_, ?_⟩
  · rw [← lex_oversized?_iff source filename]
    simp only [readSource_eq_source_iff, tokenize_eq_oversized_iff]
  · intro hreaches
    rcases lex_tiles source filename with ⟨tiles, htiled, hlex⟩ | ⟨-, tiles, w, rest, htiled, hw, -⟩
    · obtain ⟨hok, herror⟩ := tokenize_of_tiled htiled hlex
      have hlexed := lexed_of_lex source filename
      rw [hlex] at hlexed ⊢
      refine ⟨fun hne => ?_, fun hnil => ⟨fun hnone => ?_, fun tree htree => ?_⟩⟩
      · obtain ⟨e, he, htokenize, hleast⟩ := herror hne
        exact ⟨e, he, readSource_eq_source_iff.2 htokenize, hleast⟩
      · obtain ⟨e, he⟩ : ∃ e, read .condition (tiles.filterMap Tile.token?).toArray =
            .error (.parse e) :=
          read_of_not_derives hnone fun t ht => (hlexed t (by simpa using ht)).showable
        exact ⟨e, by rw [readSource_of_tokenize (hok hnil), he]; rfl⟩
      · obtain ⟨c, hc⟩ := htree.builds fun t ht => (hlexed t ht).wellTyped
        exact ⟨c, hc, readSource_of_derives (hok hnil) htree hc⟩
    · exact absurd ⟨tiles, w, rest, htiled, hw⟩ hreaches
  · intro goal w tree hw htree
    have htyped : ∀ t ∈ w, t.WellTyped :=
      fun t ht => (lexed_of_lex source filename t (hw t ht)).wellTyped
    exact Goal.build_of_builds (htree.builds htyped)

/-- An equality whose number has too many digits is refused, though it is a condition. -/
theorem readSource_of_oversized {digits : List Char} (hdigits : ∀ d ∈ digits, d.isDigit)
    (hlimit : digitLimit < digits.length) (filename : String) :
    readSource (String.ofList (['(', 'e', 'q', 'u', 'a', 'l', 's', ' ', '(', 'v', 'a', 'r', ' ',
      '\x22', 'x', '\x22', ')', ' '] ++ digits ++ [')'])) filename =
      .error (.source (.oversized ⟨digits.length⟩)) := by
  have hnumber : (Piece.lexeme (.oversized ⟨digits.length⟩) ([] ++ digits)).Fits [')'] :=
    Piece.fits_oversized false hdigits hlimit (stopsAt_cons rfl) (by decide)
  have hequals : ∀ c ∈ ['q', 'u', 'a', 'l', 's'], isWordPart c := List.all_eq_true.1 rfl
  have hvar : ∀ c ∈ ['a', 'r'], isWordPart c := List.all_eq_true.1 rfl
  have hname : StringText ['x'] ['x'] := .plain (by decide) (by decide) .nil
  have htiles : Tiles _ (['(', 'e', 'q', 'u', 'a', 'l', 's', ' ', '(', 'v', 'a', 'r', ' ',
      '\x22', 'x', '\x22', ')', ' '] ++ digits ++ [')']) [')'] :=
    .cons (.delimiter (c := '(') rfl) <|
    .cons (.word (c := 'e') (by decide) hequals (stopsAt_cons rfl)) <|
    .cons (.blank (c := ' ') (by decide)) <|
    .cons (.delimiter (c := '(') rfl) <|
    .cons (.word (c := 'v') (by decide) hvar (stopsAt_cons rfl)) <|
    .cons (.blank (c := ' ') (by decide)) <|
    .cons (.string hname) <|
    .cons (.delimiter (c := ')') rfl) <|
    .cons (.blank (c := ' ') (by decide)) <|
    .cons hnumber .nil
  rw [readSource_eq_source_iff, tokenize_eq_oversized_iff, lex, String.toList_ofList,
    htiles.pieces_eq]
  rfl

theorem readSource_leadingZeros :
    readSource (String.ofList (['(', 'e', 'q', 'u', 'a', 'l', 's', ' ', '(', 'v', 'a', 'r', ' ',
      '\x22', 'x', '\x22', ')', ' '] ++ (List.replicate 4300 '0' ++ ['1']) ++ [')'])) "<unknown>" =
      .error (.source (.oversized ⟨4301⟩)) := by
  have hdigits : ∀ d ∈ List.replicate 4300 '0' ++ ['1'], d.isDigit := by
    intro d hd
    rcases List.mem_append.1 hd with hd | hd
    · rw [List.eq_of_mem_replicate hd]
      rfl
    · rw [List.mem_singleton.1 hd]
      rfl
  have hlength : (List.replicate 4300 '0' ++ ['1']).length = 4301 := by
    rw [List.length_append, List.length_replicate]
    rfl
  rw [readSource_of_oversized hdigits (by rw [hlength]; decide), hlength]

end Conditions
