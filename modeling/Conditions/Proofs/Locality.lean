import Conditions.Proofs.Layout
import Conditions.Proofs.Positions

/-!
# Lexing is local

How far a piece of a source goes depends on the next character at most, and a blank ends it. A line
feed therefore separates two sources: lexing them as one is lexing each of them, with what comes
from the second moved down.
-/

namespace Conditions

/-! ## Pieces in front of another text -/

theorem Numeral.readDigits?_eq_none_iff {negative : Bool} {cs : List Char} :
    readDigits? negative cs = none ↔ StopsAt Char.isDigit cs := by
  cases cs with
  | nil => exact ⟨fun _ => stopsAt_nil, fun _ => rfl⟩
  | cons c cs =>
    by_cases hc : c.isDigit
    · constructor
      · intro h
        exact absurd h (readDigits?_ne_none hc)
      · intro h
        rw [h c rfl] at hc
        cases hc
    · have hc : c.isDigit = false := Bool.eq_false_iff.2 hc
      exact ⟨fun _ => stopsAt_cons hc, fun _ => by simp [readDigits?, hc]⟩

/-- Whether a number begins with a character depends on what follows only behind a minus sign. -/
theorem Numeral.read?_eq_none_iff {c : Char} {cs : List Char} :
    read? (c :: cs) = none ↔ c.isDigit = false ∧ (c = '-' → StopsAt Char.isDigit cs) := by
  by_cases hc : c = '-'
  · subst hc
    rw [read?, readDigits?_eq_none_iff]
    exact ⟨fun h => ⟨rfl, fun _ => h⟩, fun h => h.2 rfl⟩
  · rw [read?]
    · rw [readDigits?_eq_none_iff]
      refine ⟨fun h => ⟨h c rfl, fun h => absurd h hc⟩, fun h => stopsAt_cons h.1⟩
    · intro ds h
      exact hc (List.cons.inj h).1

theorem BeginsNothing.in_front_of {c : Char} {rest rest' : List Char} (h : BeginsNothing c rest)
    (hstops : StopsAt Char.isDigit rest → StopsAt Char.isDigit rest') : BeginsNothing c rest' where
  blank := h.blank
  comment := h.comment
  delimiter := h.delimiter
  number := by
    obtain ⟨hdigit, hminus⟩ := Numeral.read?_eq_none_iff.1 h.number
    exact Numeral.read?_eq_none_iff.2 ⟨hdigit, fun hc => hstops (hminus hc)⟩
  string := h.string
  word := h.word

/-- The piece is no string that is not closed. -/
def Piece.IsClosed (p : Piece) : Prop :=
  ∀ w, p ≠ .lexeme (.fault .unterminatedString) w

namespace Piece.Fits

variable {p : Piece} {c : Char} {rest rest' : List Char}

/-- How a text begins decides whether a piece fits in front of it. -/
theorem of_head?_eq (h : p.Fits rest) (hp : p.IsClosed) (hhead : rest'.head? = rest.head?) :
    p.Fits rest' := by
  have hstops : ∀ {q : Char → Bool}, StopsAt q rest → StopsAt q rest' := by
    intro q hq c hc
    exact hq c (hhead ▸ hc)
  cases h with
  | blank hblank => exact .blank hblank
  | comment hbody hrest => exact .comment hbody (hstops hrest)
  | delimiter hkind => exact .delimiter hkind
  | numeral hn hrest => exact .numeral hn ⟨hstops hrest.1, fun hf => hhead ▸ hrest.2 hf⟩
  | string hw => exact .string hw
  | unclosed hw => exact absurd rfl (hp _)
  | word hc hcs hrest => exact .word hc hcs (hstops hrest)
  | invalid hc => exact .invalid (hc.in_front_of hstops)

/-- A blank ends every piece, but a comment ends only with its line. -/
theorem before_blank (h : p.Fits rest) (hp : p.IsClosed) (hc : Text.isBlank c)
    (hcomment : ∀ text, p = .comment text → c = '\n') : p.Fits (c :: rest') := by
  have hinner : StopsAt isInner (c :: rest') := stopsAt_cons (isInner_of_isBlank hc)
  have hdigit : StopsAt Char.isDigit (c :: rest') := hinner.mono fun _ => isDigit_of_isInner
  cases h with
  | blank hblank => exact .blank hblank
  | comment hbody _ =>
    rw [hcomment _ rfl]
    exact .comment hbody (stopsAt_cons rfl)
  | delimiter hkind => exact .delimiter hkind
  | numeral hn _ =>
    refine .numeral hn ⟨hdigit, fun _ hpoint => ?_⟩
    cases hinner _ hpoint
  | string hw => exact .string hw
  | unclosed hw => exact absurd rfl (hp _)
  | word hc hcs _ => exact .word hc hcs (hinner.mono fun _ h => (Bool.or_eq_false_iff.1 h).1)
  | invalid hc => exact .invalid (hc.in_front_of fun _ => hdigit)

end Piece.Fits

/-! ## Lines -/

/-- The pieces of a text are its pieces in front of another line as well. -/
theorem Tiles.before_newline {ps : List Piece} {text rest : List Char} (h : Tiles ps text rest)
    (hps : ∀ p ∈ ps, p.IsClosed) (hrest : rest = []) (b : List Char) :
    Tiles ps (text ++ '\n' :: b) ('\n' :: b) := by
  have hnewline : Text.isBlank '\n' = true := by decide
  induction h with
  | nil =>
    rw [hrest]
    exact .nil
  | @cons p ps text rest hfits _ ih =>
    have hp := hps p List.mem_cons_self
    rw [List.append_assoc]
    refine .cons ?_ (ih (fun q hq => hps q (List.mem_cons_of_mem p hq)) hrest)
    cases text with
    | nil => exact hfits.before_blank hp hnewline fun _ _ => rfl
    | cons c cs => exact hfits.of_head?_eq hp rfl

theorem Lexing.exists_error_of_mem (filename : String) {fault : Fault} {w : List Char}
    {ps : List Piece} (h : .lexeme (.fault fault) w ∈ ps) {p : Position}
    (hnone : (ofPieces filename p ps).oversized? = none) :
    ∃ e ∈ (ofPieces filename p ps).errors, e.fault = fault := by
  induction ps generalizing p with
  | nil => cases h
  | cons piece ps ih =>
    rcases List.mem_cons.1 h with rfl | hmem
    · exact ⟨_, List.mem_cons_self, rfl⟩
    · cases piece with
      | blank c => exact ih hmem hnone
      | comment text => exact ih hmem hnone
      | lexeme reading text =>
        cases reading with
        | token kind payload => exact ih hmem hnone
        | fault fault' =>
          obtain ⟨e, he, hfault⟩ := ih hmem hnone
          exact ⟨e, List.mem_cons_of_mem _ he, hfault⟩
        | oversized e => cases hnone

/-- Lexing goes on behind the first pieces where it has come to. -/
theorem Lexing.ofPieces_append (filename : String) {ps : List Piece} {p : Position}
    (hnone : (ofPieces filename p ps).oversized? = none) (qs : List Piece) :
    ofPieces filename p (ps ++ qs) =
      let first := ofPieces filename p ps
      let second := ofPieces filename first.stop qs
      ⟨first.tokens ++ second.tokens, first.errors ++ second.errors, second.stop,
        second.oversized?⟩ := by
  induction ps generalizing p with
  | nil => rfl
  | cons piece ps ih =>
    cases piece with
    | blank c => exact ih hnone
    | comment text => exact ih hnone
    | lexeme reading text =>
      cases reading with
      | token kind payload => simp [ofPieces, ih hnone]
      | fault fault => simp [ofPieces, ih hnone]
      | oversized e => cases hnone

/-- The position in a text that so many lines, with so many characters in all, are put in front
of. -/
def Position.moved (lines chars : Int) (p : Position) : Position :=
  ⟨p.offset + chars, p.line + lines, p.column⟩

def Location.moved (lines chars : Int) (l : Location) : Location :=
  (l.toPosition.moved lines chars).locate l.filename

def Token.moved (lines chars : Int) (t : Token) : Token :=
  { t with location := t.location.map (Location.moved lines chars) }

def LexicalError.moved (lines chars : Int) (e : LexicalError) : LexicalError :=
  { e with location := e.location.moved lines chars }

def Lexing.moved (lines chars : Int) (lexing : Lexing) : Lexing where
  tokens := lexing.tokens.map (Token.moved lines chars)
  errors := lexing.errors.map (LexicalError.moved lines chars)
  stop := lexing.stop.moved lines chars
  oversized? := lexing.oversized?

section
variable {lines chars : Int}

theorem Position.advance_moved (p : Position) (c : Char) :
    (p.moved lines chars).advance c = (p.advance c).moved lines chars := by
  by_cases hc : c = '\n'
  · subst hc
    simp only [advance_newline, moved, mk.injEq, and_true]
    omega
  · simp only [advance_of_ne hc, moved, mk.injEq, and_true]
    omega

theorem Position.after_moved (p : Position) (cs : List Char) :
    (p.moved lines chars).after cs = (p.after cs).moved lines chars := by
  induction cs generalizing p with
  | nil => rfl
  | cons c cs ih => rw [after_cons, after_cons, advance_moved, ih]

/-- Where lexing begins decides only where it finds what it finds. -/
theorem Lexing.ofPieces_moved (filename : String) (ps : List Piece) (p : Position) :
    ofPieces filename (p.moved lines chars) ps = (ofPieces filename p ps).moved lines chars := by
  induction ps generalizing p with
  | nil => rfl
  | cons piece ps ih =>
    cases piece with
    | blank c => rw [ofPieces, Position.advance_moved, ih, ofPieces]
    | comment text => rw [ofPieces, Position.after_moved, ih, ofPieces]
    | lexeme reading text =>
      cases reading with
      | token kind payload =>
        simp only [ofPieces, Position.after_moved, ih]
        rfl
      | fault fault =>
        simp only [ofPieces, Position.after_moved, ih]
        rfl
      | oversized e =>
        simp only [ofPieces, Position.after_moved]
        rfl

end

/-- The position behind a line feed is the start, moved by the lines before it. -/
theorem Position.advance_newline_start_after (cs : List Char) :
    (start.after cs).advance '\n' = start.moved (cs.count '\n' + 1) (cs.length + 1) := by
  rw [advance_newline, offset_after, line_after]
  simp only [moved, start, mk.injEq, and_true]
  omega

/-- Where it does not break off, lexing goes on to the end of the source. -/
theorem stop_of_oversized?_eq_none {source filename : String}
    (h : (lex source filename).oversized? = none) :
    (lex source filename).stop = Position.start.after source.toList := by
  rcases lex_tiles source filename with ⟨tiles, -, hlex⟩ | ⟨e, -, -, -, -, -, he⟩
  · rw [hlex]
  · rw [h] at he
    cases he

/-- Lexing two texts with a line feed between them is lexing each of them. All that comes from the
second is what it was, further down by the lines and the characters of the first. Only a string that
the first text does not close would go on in the second. -/
theorem lex_append_line {a b filename : String} (ha : (lex a filename).oversized? = none)
    (hb : (lex b filename).oversized? = none)
    (hclosed : ∀ e ∈ (lex a filename).errors, e.fault ≠ .unterminatedString) :
    let lines : Int := a.toList.count '\n' + 1
    let chars : Int := a.length + 1
    let lexing := lex (a ++ "\n" ++ b) filename
    lexing.oversized? = none ∧
    lexing.tokens = (lex a filename).tokens ++ (lex b filename).tokens.map (.moved lines chars) ∧
    lexing.errors = (lex a filename).errors ++ (lex b filename).errors.map (.moved lines chars) ∧
    lexing.stop = (lex b filename).stop.moved lines chars := by
  have hps : ∀ p ∈ pieces a.toList, p.IsClosed := by
    intro p hp w hw
    obtain ⟨e, he, hfault⟩ := Lexing.exists_error_of_mem filename (hw ▸ hp) ha
    exact hclosed e he hfault
  have hnewline : Text.isBlank '\n' = true := by decide
  have htext : (a ++ "\n" ++ b).toList = a.toList ++ '\n' :: b.toList := by
    simp [String.toList_append]
  have hpieces : pieces (a ++ "\n" ++ b).toList =
      pieces a.toList ++ .blank '\n' :: pieces b.toList := by
    rw [htext, ((tiles_pieces a.toList).before_newline hps rfl b.toList).pieces_eq, pieces,
      Piece.next_blank hnewline]
  have hsecond : Lexing.ofPieces filename ((lex a filename).stop.advance '\n') (pieces b.toList) =
      (lex b filename).moved (a.toList.count '\n' + 1) (a.length + 1) := by
    rw [stop_of_oversized?_eq_none ha, Position.advance_newline_start_after,
      Lexing.ofPieces_moved, String.length_toList]
    rfl
  intro lines chars lexing
  have hlexing : lexing = Lexing.ofPieces filename .start (pieces a.toList ++
      .blank '\n' :: pieces b.toList) := congrArg (Lexing.ofPieces filename .start) hpieces
  rw [Lexing.ofPieces_append filename ha] at hlexing
  rw [hlexing]
  exact ⟨(congrArg Lexing.oversized? hsecond).trans hb,
    congrArg (_ ++ Lexing.tokens ·) hsecond, congrArg (_ ++ Lexing.errors ·) hsecond,
    congrArg Lexing.stop hsecond⟩

theorem lex_append_line_faulty :
    (lex "(and 7.\n;c" "f").oversized? = none ∧ (lex "$ \x22or" "f").oversized? = none ∧
    (∀ e ∈ (lex "(and 7.\n;c" "f").errors, e.fault ≠ .unterminatedString) ∧
    (lex ("(and 7.\n;c" ++ "\n" ++ "$ \x22or") "f").tokens =
      (lex "(and 7.\n;c" "f").tokens ++ (lex "$ \x22or" "f").tokens.map (.moved 2 11) ∧
    (lex ("(and 7.\n;c" ++ "\n" ++ "$ \x22or") "f").errors =
      (lex "(and 7.\n;c" "f").errors ++ (lex "$ \x22or" "f").errors.map (.moved 2 11) ∧
    (lex "(and 7.\n;c" "f").errors = [⟨.invalidNumber "7.", ⟨⟨5, 1, 6⟩, "f"⟩⟩] ∧
    (lex "$ \x22or" "f").errors.map (LexicalError.moved 2 11) =
      [⟨.invalidCharacter "$", ⟨⟨11, 3, 1⟩, "f"⟩⟩, ⟨.unterminatedString, ⟨⟨13, 3, 3⟩, "f"⟩⟩] := by
  have ha : (lex "(and 7.\n;c" "f").oversized? = none := by decide +kernel
  have hb : (lex "$ \x22or" "f").oversized? = none := by decide +kernel
  have hclosed : ∀ e ∈ (lex "(and 7.\n;c" "f").errors, e.fault ≠ .unterminatedString := by
    decide +kernel
  obtain ⟨-, htokens, herrors, -⟩ := lex_append_line ha hb hclosed
  exact ⟨ha, hb, hclosed, htokens, herrors, by decide +kernel, by decide +kernel⟩

end Conditions
