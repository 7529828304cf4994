import Conditions.Text.Hexadecimal

/-!
# From bytes to text

Reading a file of text: its bytes are decoded, and every way to end a line becomes a single line
feed. A malformed byte sequence is reported as the longest part of it that could still have begun a
character.
-/

namespace Conditions.Text

/-- The encodings a file may be read in. -/
inductive Encoding where
  /-- UTF-8; a byte order mark is kept as a character. -/
  | utf8
  /-- UTF-8 with an optional byte order mark in front, which is dropped. -/
  | utf8Signature
  /-- One byte for each of the first 256 code points. -/
  | latin1
  /-- One byte for each of the first 128 code points. -/
  | ascii
  deriving DecidableEq, Repr

/-- Why bytes do not spell a character. -/
inductive Malformation where
  /-- The byte begins no character. -/
  | invalidStart
  /-- The byte after the reported ones does not continue them. -/
  | invalidContinuation
  /-- The bytes end in the middle of a character. -/
  | truncated
  /-- The byte lies beyond the 128 code points of the encoding. -/
  | beyondAscii
  deriving DecidableEq, Repr

/-- The words for a malformation. -/
def Malformation.reason : Malformation → String
  | invalidStart => "invalid start byte"
  | invalidContinuation => "invalid continuation byte"
  | truncated => "unexpected end of data"
  | beyondAscii => "ordinal not in range(128)"

/-- A decoding failure: the bytes at fault, the position of the first of them, and the cause. -/
structure DecodingError where
  start : Nat
  bytes : List UInt8
  cause : Malformation
  deriving DecidableEq, Repr

/-- The name of the encoding in which a malformation arises. -/
def Malformation.encodingName : Malformation → String
  | beyondAscii => "ascii"
  | _ => "utf-8"

/-- The text of a decoding failure. -/
def DecodingError.message (e : DecodingError) : String :=
  let codec := e.cause.encodingName
  let reason := e.cause.reason
  let first := e.start
  match e.bytes with
  | [b] =>
    let byte := String.ofList (hexDigits 2 b.toNat)
    s!"'{codec}' codec can't decode byte 0x{byte} in position {first}: {reason}"
  | bs =>
    let last := e.start + bs.length - 1
    s!"'{codec}' codec can't decode bytes in position {first}-{last}: {reason}"

/-- What a first byte promises in UTF-8: its share of the code point, and the range in which each
of the following bytes must lie. -/
structure Opening where
  bits : Nat
  following : List (Nat × Nat)

/-- The promise of a first byte, if it can begin a character. The narrower ranges after some first
bytes exclude overlong forms, surrogates and code points beyond the last. -/
def Opening.ofByte? (b : Nat) : Option Opening :=
  let continuation := (0x80, 0xBF)
  if b < 0x80 then some ⟨b, []⟩
  else if b < 0xC2 then none
  else if b < 0xE0 then some ⟨b - 0xC0, [continuation]⟩
  else if b = 0xE0 then some ⟨0, [(0xA0, 0xBF), continuation]⟩
  else if b = 0xED then some ⟨0xD, [(0x80, 0x9F), continuation]⟩
  else if b < 0xF0 then some ⟨b - 0xE0, [continuation, continuation]⟩
  else if b = 0xF0 then some ⟨0, [(0x90, 0xBF), continuation, continuation]⟩
  else if b < 0xF4 then some ⟨b - 0xF0, [continuation, continuation, continuation]⟩
  else if b = 0xF4 then some ⟨4, [(0x80, 0x8F), continuation, continuation]⟩
  else none

/-- Decodes UTF-8. While a character is incomplete, `bits` holds its code point so far, `pending`
the ranges still to come and `used` its bytes, last first; `start` is the position of its first
byte. -/
def decodeUtf8From (start bits : Nat) (pending : List (Nat × Nat)) (used : List UInt8) :
    List UInt8 → Except DecodingError (List Char)
  | [] => if pending.isEmpty then .ok [] else .error ⟨start, used.reverse, .truncated⟩
  | b :: bs =>
    match pending with
    | [] =>
      match Opening.ofByte? b.toNat with
      | none => .error ⟨start, [b], .invalidStart⟩
      | some ⟨code, []⟩ => (decodeUtf8From (start + 1) 0 [] [] bs).map (Char.ofNat code :: ·)
      | some ⟨code, following⟩ => decodeUtf8From start code following [b] bs
    | (low, high) :: later =>
      if b.toNat < low || high < b.toNat then
        .error ⟨start, used.reverse, .invalidContinuation⟩
      else
        let code := bits * 64 + (b.toNat - 0x80)
        if later.isEmpty then
          (decodeUtf8From (start + used.length + 1) 0 [] [] bs).map (Char.ofNat code :: ·)
        else
          decodeUtf8From start code later (b :: used) bs

/-- Decodes UTF-8. -/
def decodeUtf8 (bytes : List UInt8) : Except DecodingError (List Char) :=
  decodeUtf8From 0 0 [] [] bytes

/-- The byte order mark in UTF-8. -/
def byteOrderMark : List UInt8 := [0xEF, 0xBB, 0xBF]

/-- Decodes UTF-8 after a byte order mark, if there is one; positions count from its end. A file
that ends before the mark is complete is empty. -/
def decodeUtf8Signature (bytes : List UInt8) : Except DecodingError (List Char) :=
  if bytes.length < byteOrderMark.length && bytes.isPrefixOf byteOrderMark then .ok []
  else if byteOrderMark.isPrefixOf bytes then decodeUtf8 (bytes.drop byteOrderMark.length)
  else decodeUtf8 bytes

/-- Decodes bytes that are all below 128; `start` is the position of the first. -/
def decodeAsciiFrom (start : Nat) : List UInt8 → Except DecodingError (List Char)
  | [] => .ok []
  | b :: bs =>
    if b.toNat < 0x80 then (decodeAsciiFrom (start + 1) bs).map (Char.ofNat b.toNat :: ·)
    else .error ⟨start, [b], .beyondAscii⟩

/-- Decodes bytes in the given encoding. -/
def decode (encoding : Encoding) (bytes : List UInt8) : Except DecodingError (List Char) :=
  match encoding with
  | .utf8 => decodeUtf8 bytes
  | .utf8Signature => decodeUtf8Signature bytes
  | .latin1 => .ok (bytes.map (fun b => Char.ofNat b.toNat))
  | .ascii => decodeAsciiFrom 0 bytes

/-- Ends every line with a single line feed. -/
def unifyLineEnds : List Char → List Char
  | [] => []
  | '\r' :: '\n' :: cs => '\n' :: unifyLineEnds cs
  | c :: cs => (if c = '\r' then '\n' else c) :: unifyLineEnds cs

/-- Reads the bytes of a text file. -/
def readText (encoding : Encoding) (bytes : List UInt8) : Except DecodingError String :=
  (decode encoding bytes).map (fun cs => String.ofList (unifyLineEnds cs))

end Conditions.Text
