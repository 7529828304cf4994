import Conditions.Reading

/-!
# Descriptions of parsers

A description says how a parser is put together. It may refer to parsers that have been given a
name, and it may ask for a new forward, so what it stands for depends on where it is read.

The values in a description may be faulty. Such a fault is a part of the description like any other,
since a fault in an earlier part is reported before it.
-/

namespace Conditions

/-- Why a value cannot be read. -/
inductive FaultyValue where
  /-- A token is given by a kind that has no spelling of its own. -/
  | notAKeyword (e : NotAKeyword)
  /-- A whole number has too many digits. -/
  | oversized (e : OversizedNumber)
  /-- The text of a whole number, which is to be a lexeme, has too many digits. -/
  | unwritable (e : UnwritableNumber)
  deriving DecidableEq, Repr

/-- The words for a value that cannot be read. -/
def FaultyValue.message : FaultyValue → String
  | notAKeyword e => e.message
  | oversized e => e.message
  | unwritable e => e.message

/-- A description of a parser. -/
inductive Description where
  | empty (value : Tree)
  | elem (kind : TokenKind)
  | pair (first second : Description) (combine : Tree → Tree → Except Refusal Tree)
  | sequence (parts : List Description)
  | many (inner : Description)
  | choice (alternatives : List Description)
  | transform (inner : Description) (f : Tree → Except Refusal Tree)
  | parenthesized (parts : List Description)
  /-- A parser under another name, or without its name. -/
  | named (inner : Description) (name? : Option String)
  /-- A new forward. -/
  | forward (name? : Option String)
  /-- The parser that has been given the name. -/
  | reference (name : String)
  | production (production : Production)
  /-- A value where a parser should be. -/
  | value (tree : Tree)
  | probe (label : String) (inner : Description)
  | jump (distance : Int) (value : Tree)
  /-- A part whose value cannot be read. -/
  | faulty (e : FaultyValue)

end Conditions
