import Conditions.Lexing.Basic

/-!
# Lexing step by step

A scanner holds a source text and a position in it. Besides lexing the whole text, it reads single
tokens, skips blanks and comments, and moves by single characters; its source and its position may
be replaced at any time.

The position may thus be set below zero. It then counts back from the end of the source, and the
source begins again behind its end. Where there is no character, it depends on the offset which error
is reported: offsets are looked up as signed words of 64 bits.
-/

namespace Conditions

/-- A scanner. -/
structure Scanner where
  source : List Char
  filename : String
  position : Position
  tokens : List Token
  errors : List LexicalError

/-- Why a single step of a scanner fails. -/
inductive ScanError where
  /-- There is no character at the position. -/
  | outOfRange
  /-- The offset of the position is no signed word of 64 bits. -/
  | unaddressable
  /-- The text at the position is faulty. -/
  | lexical (e : LexicalError)
  /-- The number at the position has too many digits. -/
  | oversized (e : OversizedNumber)
  deriving DecidableEq, Repr

/-- The words for an error. -/
def ScanError.message : ScanError → Except UnwritableNumber String
  | outOfRange => .ok "string index out of range"
  | unaddressable => .ok "cannot fit 'int' into an index-sized integer"
  | lexical e => e.diagnostic.text
  | oversized e => .ok e.message

/-- The least offset that is too large for a signed word of 64 bits. -/
def offsetBound : Int := 9223372036854775808

/-- Why there is no character at an offset. -/
def ScanError.ofOffset (offset : Int) : ScanError :=
  if -offsetBound ≤ offset ∧ offset < offsetBound then outOfRange else unaddressable

/-- The text that is left after the blanks and comments at the front of `cs`. -/
def skipLayout : List Char → List Char
  | [] => []
  | c :: cs =>
    if Text.isBlank c then skipLayout cs
    else if c = ';' then skipLayout (cs.dropWhile inLine)
    else c :: cs
termination_by cs => cs.length
decreasing_by
  · simp
  · exact Nat.lt_succ_of_le (List.dropWhile_suffix inLine).length_le

/-- The lexeme at a position below zero, where the text goes on with `c :: cs`. Delimiters and
strings are read there, but numbers and words are read at the start of the source. -/
def scanBelowZero (source : List Char) (c : Char) (cs : List Char) : Scan :=
  if (delimiters.lookup c).isSome then scan c cs
  else
    match Numeral.read? source, source with
    | some (n, rest), _ => ⟨n.reading, n.written, rest⟩
    | none, [] => scan c cs
    | none, d :: ds =>
      if c = quoteMark then scan c cs
      else if isWordStart d then scan d ds
      else ⟨.fault (.invalidCharacter (String.singleton c)), [], c :: cs⟩

namespace Scanner

/-- A scanner at the start of a source text. -/
def ofSource (source filename : String) : Scanner :=
  ⟨source.toList, filename, .start, [], []⟩

/-- The distance from the start of the source at which an offset lies, if it counts from the end
when it is below zero. -/
def index (s : Scanner) (offset : Int) : Nat :=
  if offset < 0 then (s.source.length + offset).toNat else offset.toNat

/-- The text from the position on, unless the position lies before the start of the source. -/
def remaining? (s : Scanner) : Option (List Char) :=
  let offset := s.position.offset
  if 0 ≤ offset then some (s.source.drop (s.index offset))
  else if -offset ≤ s.source.length then some (s.source.drop (s.index offset) ++ s.source)
  else none

/-- The error of a step that finds no character at the position. -/
def noCharacter (s : Scanner) : ScanError :=
  .ofOffset s.position.offset

/-- Moves the position past the text `cs`. -/
def move (s : Scanner) (cs : List Char) : Scanner :=
  { s with position := s.position.after cs }

/-- Lexes the whole source from its start, in place of what was found before. -/
def lexAll (s : Scanner) : Scanner × Option OversizedNumber :=
  let lexing := Lexing.ofPieces s.filename .start (pieces s.source)
  ({ s with position := lexing.stop, tokens := lexing.tokens, errors := lexing.errors },
    lexing.oversized?)

/-- The lexeme of a token that begins at the position and is read as `written`. The lexeme of a
string is cut out of the source between the two positions. -/
def lexeme (s : Scanner) (kind : TokenKind) (written : List Char) : String :=
  let offset := s.position.offset
  if kind = .string && offset < 0 then
    let stop := s.index (offset + written.length)
    String.ofList ((s.source.take stop).drop (s.index offset))
  else String.ofList written

/-- Reads the token at the position, at which a blank or a comment is an invalid character. The
token or the fault is reported only, and the position is left behind what the rule read. -/
def next (s : Scanner) : Scanner × Except ScanError Token :=
  match s.remaining? with
  | none | some [] => (s, .error s.noCharacter)
  | some (c :: cs) =>
    let scanned := if s.position.offset < 0 then scanBelowZero s.source c cs else scan c cs
    let location := s.position.locate s.filename
    let result := match scanned.reading with
      | .token kind payload => .ok ⟨kind, s.lexeme kind scanned.written, payload, some location⟩
      | .fault fault => .error (.lexical ⟨fault, location⟩)
      | .oversized e => .error (.oversized e)
    (s.move ((c :: cs).take scanned.written.length), result)

/-- Skips blanks and comments. -/
def skip (s : Scanner) : Scanner × Except ScanError Unit :=
  match s.remaining? with
  | none => (s, .error s.noCharacter)
  | some cs => (s.move (cs.take (cs.length - (skipLayout cs).length)), .ok ())

/-- Moves on by `n` characters, but not beyond the end. -/
def advance (s : Scanner) (n : Int) : Scanner × Except ScanError Unit :=
  if n ≤ 0 then (s, .ok ())
  else
    match s.remaining? with
    | none => (s, .error s.noCharacter)
    | some cs => (s.move (cs.take n.toNat), .ok ())

/-- Reads the character behind a backslash, and tells what the two stand for. -/
def escape (s : Scanner) : Scanner × Except ScanError Char :=
  match s.remaining? with
  | none | some [] => (s, .error s.noCharacter)
  | some (c :: _) => (s.move [c], .ok (unescape c))

/-- Moves to another position. -/
def goto (s : Scanner) (p : Position) : Scanner :=
  { s with position := p }

/-- Replaces the source text and nothing else. -/
def replaceSource (s : Scanner) (source : String) : Scanner :=
  { s with source := source.toList }

end Scanner

end Conditions
