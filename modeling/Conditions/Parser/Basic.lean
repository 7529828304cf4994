import Conditions.Tree.Build

/-!
# Parsers

A parser is an expression built from a few primitives and combinators. It is run on a list of tokens
at an index, and either matches, with a tree and the index behind what it matched, or fails.
A rule that refers to itself is written with a forward: a numbered place whose parser is supplied
later, and looked up each time the rule is run.
-/

namespace Conditions

/-- A parser. -/
inductive Parser where
  /-- Matches without looking at the tokens, with the given tree. -/
  | empty (value : Tree)
  /-- Matches one token of the kind; the tree is the token. -/
  | elem (kind : TokenKind)
  /-- Two parsers, the second from where the first ends; their trees are combined by a function,
  which may refuse them. -/
  | pair (first second : Parser) (combine : Tree → Tree → Except Refusal Tree)
  /-- Parsers one behind the other; the tree is the list of their trees. -/
  | sequence (parts : List Parser)
  /-- A parser as often as it matches something; the tree is the list of its trees. -/
  | many (inner : Parser)
  /-- The first of the parsers that matches. -/
  | choice (alternatives : List Parser)
  /-- A parser whose tree is put through a function, which may refuse it. -/
  | transform (inner : Parser) (f : Tree → Except Refusal Tree)
  /-- The parser supplied for the place with this number. -/
  | forward (place : Nat)
  /-- A parser each of whose runs is noted under a label. -/
  | probe (label : String) (inner : Parser)
  /-- Matches without looking at the tokens, and moves the index by `distance`. -/
  | jump (distance : Int) (value : Tree)
  /-- A parser that is traced under a name. -/
  | named (name : String) (inner : Parser)

namespace Parser

/-- The name of a parser. -/
def name? : Parser → Option String
  | named name _ => some name
  | _ => none

/-- The parser without its name. -/
def unnamed : Parser → Parser
  | named _ inner => inner
  | p => p

/-- The parser under a name, which replaces the name it had. -/
def rename (name : String) (p : Parser) : Parser :=
  named name p.unnamed

/-- The parser of one token of the kind, which has the name of the kind. -/
def token (kind : TokenKind) : Parser :=
  named kind.name (elem kind)

/-- The word for how a parser works. -/
def form : Parser → String
  | empty _ => "_empty"
  | elem _ => "_elem"
  | pair _ _ _ => "_tuple2"
  | sequence _ => "_tuple_many"
  | many _ => "_many"
  | choice _ => "_or"
  | transform _ _ => "_transform"
  | forward _ => "_resolve"
  | probe _ _ => "record"
  | jump _ _ => "jump"
  | named _ inner => inner.form

/-- The description of a parser: its name, or how it works if it has none. -/
def describe (p : Parser) : String :=
  let shown := match p.name?.getD "" with
    | "" => p.form
    | name => name
  s!"Parser({shown})"

/-- The trees between the first and the last of a list. -/
def dropEnds : Tree → Tree
  | .list trees => .list (trees.drop 1).dropLast
  | tree => tree

/-- The parsers between parentheses; the tree is the list of their trees. -/
def parenthesized (parts : List Parser) : Parser :=
  transform (sequence (token .leftParen :: parts ++ [token .rightParen]))
    (fun tree => .ok (dropEnds tree))

end Parser

/-- A place for a parser that is supplied later. -/
structure Forward where
  name? : Option String
  body? : Option Parser

/-- The places that forwards stand for. -/
abbrev Store := List Forward

end Conditions
