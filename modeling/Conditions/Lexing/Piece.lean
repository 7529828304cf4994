import Conditions.Lexing.Literal
import Conditions.Number.Integer
import Conditions.Text.Blank

/-!
# Pieces of a source text

A source text falls into pieces: blanks, comments, and lexemes, some of which are faulty. What a
piece is depends on nothing but the text from its first character on.
-/

namespace Conditions

/-- What a lexeme turns out to be. -/
inductive Reading where
  /-- A token of the given kind that carries a value. -/
  | token (kind : TokenKind) (payload : Tree)
  /-- A fault. -/
  | fault (fault : Fault)
  /-- A whole number with too many digits. -/
  | oversized (e : OversizedNumber)

/-- A lexeme, as far as its rule reads, and the text behind it. -/
structure Scan where
  reading : Reading
  written : List Char
  rest : List Char

/-- What a number literal turns out to be. -/
def Numeral.reading (n : Numeral) : Reading :=
  match n.fraction? with
  | some [] => .fault (.invalidNumber (String.ofList n.written))
  | some digits =>
    let value := Binary64.ofDecimal n.negative (digitsValue (n.whole ++ digits)) (-digits.length)
    .token .number (.number (.real value))
  | none =>
    match readInteger n.negative n.whole with
    | .ok value => .token .number (.number (.integer value))
    | .error e => .oversized e

/-- Whether a word may begin with the character. -/
def isWordStart (c : Char) : Bool :=
  c.isAlpha || c = '_'

/-- Whether a word may go on with the character. -/
def isWordPart (c : Char) : Bool :=
  c.isAlphanum || c = '_' || c = '-'

/-- What a word turns out to be: keywords may be written in any mixture of cases. -/
def readWord (word : String) : Reading :=
  match keywords.lookup (Text.upper word) with
  | some kind => .token kind .absent
  | none => .fault (.unknownWord word)

/-- The lexeme at the front of the text `c :: cs`, neither blanks nor comments being skipped. A
rule that cannot begin with `c` reads nothing. -/
def scan (c : Char) (cs : List Char) : Scan :=
  match delimiters.lookup c with
  | some kind => ⟨.token kind .absent, [c], cs⟩
  | none =>
    match Numeral.read? (c :: cs) with
    | some (n, rest) => ⟨n.reading, n.written, rest⟩
    | none =>
      if c = quoteMark then
        match StringBody.read? cs with
        | some b =>
          ⟨.token .string (.text (String.ofList b.meant)), c :: b.written ++ [quoteMark], b.rest⟩
        | none => ⟨.fault .unterminatedString, c :: cs, []⟩
      else if isWordStart c then
        let word := c :: cs.takeWhile isWordPart
        ⟨readWord (String.ofList word), word, cs.dropWhile isWordPart⟩
      else
        ⟨.fault (.invalidCharacter (String.singleton c)), [], c :: cs⟩

/-- A rule splits the text into what it reads and what it leaves. -/
theorem scan_written_append_rest (c : Char) (cs : List Char) :
    (scan c cs).written ++ (scan c cs).rest = c :: cs := by
  unfold scan
  split
  · rfl
  · split
    · next n rest h => exact Numeral.written_append_of_read? h
    · split
      · split
        · next b h => simp [StringBody.written_append_of_read? h]
        · simp
      · split
        · simp [List.takeWhile_append_dropWhile]
        · rfl

/-- A piece of a source text. -/
inductive Piece where
  /-- A blank character. -/
  | blank (c : Char)
  /-- A comment, without the end of its line. -/
  | comment (text : List Char)
  /-- A lexeme. -/
  | lexeme (reading : Reading) (text : List Char)

/-- The text of a piece. -/
def Piece.text : Piece → List Char
  | blank c => [c]
  | comment text => text
  | lexeme _ text => text

/-- Whether the character is not the end of a line. -/
def inLine (c : Char) : Bool :=
  c ≠ '\n'

/-- The piece at the front of the text `c :: cs`, and the text behind it. A comment runs to the end
of its line. Where no rule reads anything, the character itself is the piece. -/
def Piece.next (c : Char) (cs : List Char) : Piece × List Char :=
  if Text.isBlank c then (.blank c, cs)
  else if c = ';' then (.comment (c :: cs.takeWhile inLine), cs.dropWhile inLine)
  else
    let s := scan c cs
    if s.written.isEmpty then (.lexeme s.reading [c], cs) else (.lexeme s.reading s.written, s.rest)

/-- The next piece and the text behind it make up the text. -/
theorem Piece.text_append_next (c : Char) (cs : List Char) :
    (next c cs).1.text ++ (next c cs).2 = c :: cs := by
  unfold next
  split
  · rfl
  · split
    · simp [text, List.takeWhile_append_dropWhile]
    · dsimp only
      split
      · rfl
      · exact scan_written_append_rest c cs

/-- No piece is empty. -/
theorem Piece.text_next_ne_nil (c : Char) (cs : List Char) : (next c cs).1.text ≠ [] := by
  unfold next
  split
  · simp [text]
  · split
    · simp [text]
    · dsimp only
      split
      · simp [text]
      · next h => simpa [text, List.isEmpty_iff] using h

/-- The text behind a piece is shorter than the text before it. -/
theorem Piece.length_next (c : Char) (cs : List Char) : (next c cs).2.length < (c :: cs).length := by
  have h := congrArg List.length (text_append_next c cs)
  have := List.length_pos_iff.2 (text_next_ne_nil c cs)
  simp only [List.length_append] at h
  omega

/-- The pieces of a text, from left to right. -/
def pieces : List Char → List Piece
  | [] => []
  | c :: cs => (Piece.next c cs).1 :: pieces (Piece.next c cs).2
termination_by cs => cs.length
decreasing_by exact Piece.length_next c cs

end Conditions
