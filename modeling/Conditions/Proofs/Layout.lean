import Conditions.Lexing.Basic
import Conditions.Proofs.Pieces

/-!
# Lexemes and layout

Lexemes written one behind the other, with blanks and comments around them, are lexed to one token
each, whatever the layout. Something must stand between two lexemes only if neither of them is a
parenthesis or a string.
-/

namespace Conditions

/-- A token as it is written. -/
structure Lexeme where
  text : List Char
  kind : TokenKind
  payload : Tree

namespace Lexeme

/-- What a token says, apart from its place. -/
def ofToken (t : Token) : Lexeme :=
  ⟨t.lexeme.toList, t.kind, t.payload⟩

def leftParen : Lexeme := ⟨['('], .leftParen, .absent⟩

def rightParen : Lexeme := ⟨[')'], .rightParen, .absent⟩

def keyword (kind : TokenKind) (w : List Char) : Lexeme :=
  ⟨w, kind, .absent⟩

def integer (negative : Bool) (digits : List Char) : Lexeme :=
  ⟨(if negative then ['-'] else []) ++ digits, .number,
    .number (.integer (if negative then -(digitsValue digits : Int) else digitsValue digits))⟩

def decimal (negative : Bool) (whole fraction : List Char) : Lexeme :=
  ⟨(if negative then ['-'] else []) ++ whole ++ '.' :: fraction, .number,
    .number (.real (Binary64.ofDecimal negative (digitsValue (whole ++ fraction))
      (-fraction.length)))⟩

def string (body meant : List Char) : Lexeme :=
  ⟨quoteMark :: body ++ [quoteMark], .string, .text (String.ofList meant)⟩

/-- Parentheses and strings are told from what is next to them. -/
def standsAlone (l : Lexeme) : Bool :=
  l.kind = .leftParen || l.kind = .rightParen || l.kind = .string

/-- The lexemes of the language. Keywords may be written in any mixture of cases. -/
inductive Valid : Lexeme → Prop where
  | leftParen : Valid leftParen
  | rightParen : Valid rightParen
  | keyword {spelling : String} {w : List Char} {kind : TokenKind} : (spelling, kind) ∈ keywords →
      w.map Char.toUpper = spelling.toList → Valid (keyword kind w)
  | integer {negative : Bool} {digits : List Char} : digits ≠ [] → (∀ d ∈ digits, d.isDigit) →
      digits.length ≤ digitLimit → Valid (integer negative digits)
  | decimal {negative : Bool} {whole fraction : List Char} : whole ≠ [] → fraction ≠ [] →
      (∀ d ∈ whole, d.isDigit) → (∀ d ∈ fraction, d.isDigit) →
      Valid (decimal negative whole fraction)
  | string {body meant : List Char} : StringText body meant → Valid (string body meant)

end Lexeme

/-- Blanks and comments, each of which ends with its line. -/
inductive Layout : List Char → Prop where
  | nil : Layout []
  | blank {c : Char} {gap : List Char} : Text.isBlank c → Layout gap → Layout (c :: gap)
  | comment {body gap : List Char} : '\n' ∉ body → Layout gap →
      Layout (';' :: body ++ '\n' :: gap)

/-- The layout at the end of a text, which may be a comment that no line ends. -/
inductive LastLayout : List Char → Prop where
  | layout {gap : List Char} : Layout gap → LastLayout gap
  | comment {gap body : List Char} : Layout gap → '\n' ∉ body → LastLayout (gap ++ ';' :: body)

/-- The text consists of the lexemes with layout before, between and behind them. It is loose if it
stands behind a lexeme that does not stand alone; then it must not begin with such a lexeme. -/
inductive Spread : Bool → List Lexeme → List Char → Prop where
  | nil {loose : Bool} {gap : List Char} : LastLayout gap → Spread loose [] gap
  | cons {loose : Bool} {gap text : List Char} {l : Lexeme} {ls : List Lexeme} : Layout gap →
      (loose = true → l.standsAlone = false → gap ≠ []) →
      Spread (!l.standsAlone) ls text → Spread loose (l :: ls) (gap ++ (l.text ++ text))

/-! ## Where words and numbers end -/

/-- Whether the character may stand within a word or a number. -/
def isInner (c : Char) : Bool :=
  isWordPart c || c = '.'

theorem isDigit_of_isInner {c : Char} (h : isInner c = false) : c.isDigit = false := by
  simp only [isInner, isWordPart, Char.isAlphanum, Bool.or_eq_false_iff] at h
  exact h.1.1.1.2

theorem isInner_of_isBlank {c : Char} (h : Text.isBlank c) : isInner c = false := by
  refine Bool.eq_false_iff.2 fun hc => ?_
  have hgraphic : 0x21 ≤ c.toNat ∧ c.toNat ≤ 0x7E := by
    simp only [isInner, isWordPart, Char.isAlphanum, Bool.or_eq_true, decide_eq_true_eq] at hc
    rcases hc with (((hc | hc) | rfl) | rfl) | rfl
    · have := toNat_of_isWordStart (c := c) (by simp [isWordStart, hc])
      omega
    · have := toNat_of_isDigit hc
      omega
    · decide
    · decide
    · decide
  rw [isBlank_of_graphic hgraphic.1 hgraphic.2] at h
  cases h

theorem StopsAt.mono {p q : Char → Bool} {rest : List Char} (h : StopsAt p rest)
    (hpq : ∀ c, p c = false → q c = false) : StopsAt q rest :=
  fun c hc => hpq c (h c hc)

section
variable {gap rest : List Char}

theorem Layout.stopsAt (h : Layout gap) (hne : gap ≠ []) : StopsAt isInner (gap ++ rest) := by
  cases h with
  | nil => exact absurd rfl hne
  | blank hblank _ => exact stopsAt_cons (isInner_of_isBlank hblank)
  | comment _ _ => exact stopsAt_cons rfl

theorem LastLayout.stopsAt (h : LastLayout gap) : StopsAt isInner gap := by
  cases h with
  | layout hgap =>
    by_cases hne : gap = []
    · rw [hne]
      exact stopsAt_nil
    · rw [← List.append_nil gap]
      exact hgap.stopsAt hne
  | @comment gap body hgap _ =>
    by_cases hne : gap = []
    · rw [hne]
      exact stopsAt_cons rfl
    · exact hgap.stopsAt hne

end

/-! ## Keywords -/

theorem isWordStart_of_toUpper {c : Char} (h : isWordStart c.toUpper) : isWordStart c := by
  unfold Char.toUpper at h
  split at h
  · next hlower =>
    have hc : c.isLower = true :=
      Bool.and_eq_true_iff.2 ⟨decide_eq_true hlower.1, decide_eq_true hlower.2⟩
    have halpha : c.isAlpha = true := Bool.or_eq_true_iff.2 (Or.inr hc)
    simp [isWordStart, halpha]
  · exact h

theorem upper_ofList {w : List Char} (h : ∀ c ∈ w, isWordStart c) :
    Text.upper (String.ofList w) = String.ofList (w.map Char.toUpper) := by
  rw [Text.upper, String.toList_ofList]
  congr 1
  induction w with
  | nil => rfl
  | cons c w ih =>
    have hc := toNat_of_isWordStart (h c List.mem_cons_self)
    have hupper : Text.upperChar c = [c.toUpper] := by
      rw [Text.upperChar, if_pos (by omega)]
    rw [List.flatMap_cons, hupper, ih fun d hd => h d (List.mem_cons_of_mem c hd)]
    rfl

/-- A word with the letters of a keyword is read as the keyword. -/
theorem fits_keyword {spelling : String} {w rest : List Char} {kind : TokenKind}
    (hkeyword : (spelling, kind) ∈ keywords) (hw : w.map Char.toUpper = spelling.toList)
    (hrest : StopsAt isWordPart rest) :
    (Piece.lexeme (.token kind .absent) w).Fits rest := by
  have hspelling : ∀ entry ∈ keywords, entry.1.toList ≠ [] ∧
      entry.1.toList.all isWordStart ∧ keywords.lookup entry.1 = some entry.2 := by
    decide
  obtain ⟨hne, hletters, hlookup⟩ := hspelling _ hkeyword
  have hstart : ∀ c ∈ w, isWordStart c := by
    intro c hc
    apply isWordStart_of_toUpper
    apply List.all_eq_true.1 hletters
    rw [← hw]
    exact List.mem_map_of_mem hc
  have hread : readWord (String.ofList w) = .token kind .absent := by
    rw [readWord, upper_ofList hstart, hw, String.ofList_toList, hlookup]
  cases w with
  | nil => exact absurd hw.symm hne
  | cons c cs =>
    rw [← hread]
    apply Piece.Fits.word (hstart c List.mem_cons_self) _ hrest
    intro d hd
    exact isWordPart_of_isWordStart (hstart d (List.mem_cons_of_mem c hd))

theorem Lexeme.standsAlone_of_keyword {spelling : String} {w : List Char} {kind : TokenKind}
    (h : (spelling, kind) ∈ keywords) : (keyword kind w).standsAlone = false := by
  have hkeywords : ∀ entry ∈ keywords, (keyword entry.2 w).standsAlone = false := by
    simp [keywords, standsAlone, keyword]
  exact hkeywords _ h

/-! ## Lexing what is spread -/

/-- A lexeme is read back as it was written, wherever it ends. -/
theorem Lexeme.Valid.fits {l : Lexeme} {rest : List Char} (h : l.Valid)
    (hrest : l.standsAlone = false → StopsAt isInner rest) :
    (Piece.lexeme (.token l.kind l.payload) l.text).Fits rest := by
  cases h with
  | leftParen => exact .delimiter rfl
  | rightParen => exact .delimiter rfl
  | keyword hmem hw =>
    apply fits_keyword hmem hw
    apply (hrest (standsAlone_of_keyword hmem)).mono
    intro c hc
    exact (Bool.or_eq_false_iff.1 hc).1
  | @integer negative digits hne hdigits hlimit =>
    have hstops := hrest rfl
    have hn : Numeral.WellFormed ⟨negative, digits, none⟩ := ⟨hne, hdigits, fun _ h => by cases h⟩
    have hend : Numeral.EndsBefore ⟨negative, digits, none⟩ rest := by
      refine ⟨hstops.mono fun c => isDigit_of_isInner, fun _ hpoint => ?_⟩
      cases hstops _ hpoint
    have hlimit : ¬ digitLimit < digits.length := Nat.not_lt.2 hlimit
    simpa [Lexeme.integer, Numeral.reading, readInteger, hlimit, Numeral.written] using
      Piece.Fits.numeral hn hend
  | @decimal negative whole fraction hne hne' hwhole hfraction =>
    have hstops := hrest rfl
    have hn : Numeral.WellFormed ⟨negative, whole, some fraction⟩ := by
      refine ⟨hne, hwhole, ?_⟩
      intro digits hdigits
      cases hdigits
      exact hfraction
    have hend : Numeral.EndsBefore ⟨negative, whole, some fraction⟩ rest :=
      ⟨hstops.mono fun c => isDigit_of_isInner, fun h => by cases h⟩
    have hfits := Piece.Fits.numeral hn hend
    cases fraction with
    | nil => exact absurd rfl hne'
    | cons d ds => exact hfits
  | string hbody => exact .string hbody

theorem tokenize_of_tiles {ps : List Piece} {text : List Char} {filename : String}
    {tokens : List Token} {stop : Position} (h : Tiles ps text [])
    (hlexing : Lexing.ofPieces filename .start ps = ⟨tokens, [], stop, none⟩) :
    tokenize (String.ofList text) filename = .ok tokens := by
  have hpieces := h.pieces_eq
  rw [pieces, List.append_nil] at hpieces
  rw [tokenize, lex, String.toList_ofList, hpieces, hlexing]

/-- The text is lexed to the lexemes without an error, wherever it begins. -/
def Lexes (text : List Char) (ls : List Lexeme) : Prop :=
  ∀ filename p, ∃ tokens stop, Lexing.ofPieces filename p (pieces text) = ⟨tokens, [], stop, none⟩ ∧
    tokens.map Lexeme.ofToken = ls

theorem pieces_of_fits {piece : Piece} {rest : List Char} (h : piece.Fits rest) :
    pieces (piece.text ++ rest) = piece :: pieces rest :=
  (Tiles.cons h .nil).pieces_eq

namespace Lexes

variable {text : List Char} {ls : List Lexeme}

theorem nil : Lexes [] [] := by
  intro filename p
  rw [pieces]
  exact ⟨[], p, rfl, rfl⟩

theorem blank {c : Char} (hc : Text.isBlank c) (h : Lexes text ls) : Lexes (c :: text) ls := by
  intro filename p
  have hpieces : pieces (c :: text) = .blank c :: pieces text := pieces_of_fits (.blank hc)
  rw [hpieces]
  exact h filename (p.advance c)

theorem comment {body : List Char} (hbody : '\n' ∉ body) (hstops : StopsAt inLine text)
    (h : Lexes text ls) : Lexes (';' :: body ++ text) ls := by
  intro filename p
  have hline : ∀ c ∈ body, inLine c := by
    intro c hc
    have hne : c ≠ '\n' := fun heq => hbody (heq ▸ hc)
    simp [inLine, hne]
  have hpieces : pieces (';' :: body ++ text) = .comment (';' :: body) :: pieces text :=
    pieces_of_fits (.comment hline hstops)
  rw [hpieces]
  exact h filename (p.after (';' :: body))

theorem lexeme {l : Lexeme} (hl : (Piece.lexeme (.token l.kind l.payload) l.text).Fits text)
    (h : Lexes text ls) : Lexes (l.text ++ text) (l :: ls) := by
  intro filename p
  have hpieces :
      pieces (l.text ++ text) = .lexeme (.token l.kind l.payload) l.text :: pieces text :=
    pieces_of_fits hl
  obtain ⟨tokens, stop, hlexing, htokens⟩ := h filename (p.after l.text)
  refine ⟨⟨l.kind, String.ofList l.text, l.payload, some (p.locate filename)⟩ :: tokens, stop, ?_,
    ?_⟩
  · rw [hpieces, Lexing.ofPieces, hlexing]
  · rw [List.map_cons, htokens, Lexeme.ofToken, String.toList_ofList]

theorem layout {gap : List Char} (hgap : Layout gap) (h : Lexes text ls) :
    Lexes (gap ++ text) ls := by
  induction hgap with
  | nil => exact h
  | blank hc _ ih => exact ih.blank hc
  | @comment body gap hbody _ ih =>
    have hnewline : Text.isBlank '\n' := by decide
    have hcomment := (ih.blank hnewline).comment hbody (stopsAt_cons rfl)
    simpa using hcomment

theorem lastLayout {gap : List Char} (hgap : LastLayout gap) : Lexes gap [] := by
  cases hgap with
  | layout hgap =>
    rw [← List.append_nil gap]
    exact layout hgap nil
  | @comment gap body hgap hbody =>
    have hcomment := nil.comment hbody stopsAt_nil
    rw [List.append_nil] at hcomment
    exact layout hgap hcomment

end Lexes

/-- What begins with a lexeme that stands alone ends the word or the number before it. -/
theorem Lexeme.Valid.stopsAt {l : Lexeme} {rest : List Char} (h : l.Valid)
    (halone : l.standsAlone = true) : StopsAt isInner (l.text ++ rest) := by
  cases h with
  | leftParen => exact stopsAt_cons rfl
  | rightParen => exact stopsAt_cons rfl
  | keyword hmem _ =>
    rw [standsAlone_of_keyword hmem] at halone
    cases halone
  | integer _ _ _ => cases halone
  | decimal _ _ _ _ => cases halone
  | string _ => exact stopsAt_cons rfl

/-- Lexemes that are spread over a text are lexed from it. If the text is loose, then a word or a
number in front of it ends there. -/
theorem Spread.lexes {loose : Bool} {ls : List Lexeme} {text : List Char}
    (h : Spread loose ls text) : (∀ l ∈ ls, l.Valid) →
    Lexes text ls ∧ (loose = true → StopsAt isInner text) := by
  induction h with
  | nil hgap => exact fun _ => ⟨.lastLayout hgap, fun _ => hgap.stopsAt⟩
  | @cons loose gap text l ls hgap hseparate _ ih =>
    intro hvalid
    have hl := hvalid l List.mem_cons_self
    have ih := ih fun l' hl' => hvalid l' (List.mem_cons_of_mem l hl')
    have hfits : (Piece.lexeme (.token l.kind l.payload) l.text).Fits text :=
      hl.fits fun halone => ih.2 (by rw [halone]; rfl)
    refine ⟨.layout hgap (.lexeme hfits ih.1), fun hloose => ?_⟩
    by_cases hne : gap = []
    · rw [hne, List.nil_append]
      cases halone : l.standsAlone with
      | true => exact hl.stopsAt halone
      | false => exact absurd hne (hseparate hloose halone)
    · exact hgap.stopsAt hne

/-- Every layout of lexemes has just their tokens. -/
theorem Spread.tokenize_eq {ls : List Lexeme} {text : List Char} (h : Spread false ls text)
    (hvalid : ∀ l ∈ ls, l.Valid) (filename : String) :
    ∃ tokens, tokenize (String.ofList text) filename = .ok tokens ∧
      tokens.map Lexeme.ofToken = ls := by
  obtain ⟨tokens, stop, hlexing, htokens⟩ := (h.lexes hvalid).1 filename .start
  refine ⟨tokens, ?_, htokens⟩
  rw [tokenize, lex, String.toList_ofList, hlexing]

end Conditions
