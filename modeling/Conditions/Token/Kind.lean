/-!
# Kinds of tokens

The condition language has nine kinds of tokens: two delimiters, five keywords and two literals.
Keywords and delimiters have one spelling each.
-/

namespace Conditions

/-- The kind of a token. -/
inductive TokenKind where
  | leftParen
  | rightParen
  | var
  | equals
  | and
  | or
  | wildcard
  | number
  | string
  deriving DecidableEq, Repr

namespace TokenKind

/-- All kinds, in the order of their numbers. -/
def all : List TokenKind :=
  [leftParen, rightParen, var, equals, and, or, wildcard, number, string]

/-- The name of a kind. -/
def name : TokenKind → String
  | leftParen => "LEFT_PAREN"
  | rightParen => "RIGHT_PAREN"
  | var => "VAR"
  | equals => "EQUALS"
  | and => "AND"
  | or => "OR"
  | wildcard => "WILDCARD"
  | number => "NUMBER"
  | string => "STRING"

/-- The number of a kind; the first is one. -/
def ordinal (kind : TokenKind) : Nat :=
  all.idxOf kind + 1

/-- The kind with the given name. -/
def ofName? (name : String) : Option TokenKind :=
  all.find? (fun kind => kind.name == name)

end TokenKind

/-- The keywords with their spellings in upper case. -/
def keywords : List (String × TokenKind) :=
  [("VAR", .var), ("EQUALS", .equals), ("AND", .and), ("OR", .or), ("_", .wildcard)]

/-- The delimiters. -/
def delimiters : List (Char × TokenKind) :=
  [('(', .leftParen), (')', .rightParen)]

namespace TokenKind

/-- The keyword or delimiter that a kind stands for; literals have no spelling of their own. -/
def spelling? : TokenKind → Option String
  | leftParen => some "("
  | rightParen => some ")"
  | var => some "VAR"
  | equals => some "EQUALS"
  | and => some "AND"
  | or => some "OR"
  | wildcard => some "_"
  | number | string => none

/-- Whether tokens of this kind are keywords. -/
def isKeyword (kind : TokenKind) : Bool :=
  keywords.any (fun entry => entry.2 == kind)

/-- Whether tokens of this kind carry a value. -/
def isLiteral (kind : TokenKind) : Bool :=
  kind = number || kind = string

end TokenKind

end Conditions
