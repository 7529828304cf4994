import Conditions.Text.Hexadecimal
import Conditions.Text.Printable

/-!
# Quoted text

How a text is shown inside messages: between apostrophes, or between double quotes where that
avoids an escape, with the quote, the backslash and everything that is not printable escaped.
-/

namespace Conditions.Text

/-- The quote to put around the characters: an apostrophe, unless they hold an apostrophe and no
double quote. -/
def quoteFor (cs : List Char) : Char :=
  if cs.contains '\x27' && !cs.contains '\x22' then '\x22' else '\x27'

/-- A character as it stands between quotes. -/
def escaped (quote c : Char) : List Char :=
  if c = quote || c = '\\' then ['\\', c]
  else if c = '\n' then ['\\', 'n']
  else if c = '\r' then ['\\', 'r']
  else if c = '\t' then ['\\', 't']
  else if isPrintable c then [c]
  else if c.toNat < 0x100 then '\\' :: 'x' :: hexDigits 2 c.toNat
  else if c.toNat < 0x10000 then '\\' :: 'u' :: hexDigits 4 c.toNat
  else '\\' :: 'U' :: hexDigits 8 c.toNat

/-- The text between quotes. -/
def quoted (s : String) : String :=
  let quote := quoteFor s.toList
  String.ofList (quote :: s.toList.flatMap (escaped quote) ++ [quote])

end Conditions.Text
