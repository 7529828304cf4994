import Conditions.Location
import Conditions.Node.Basic
import Conditions.Token.Kind

/-!
# Tokens and trees

A token is a lexeme with its kind, the value it carries and the place it was read from. A tree is
what a parser makes of tokens: the tokens themselves, the values they carry, and lists of trees.
Tokens may carry any tree, so the two types are defined together.
-/

namespace Conditions

mutual

/-- A token. -/
structure Token where
  kind : TokenKind
  lexeme : String
  /-- The value that the token carries: `absent` for keywords and delimiters. -/
  payload : Tree
  location : Option Location

/-- The outcome of parsing, and the value of a token. -/
inductive Tree where
  /-- No value. -/
  | absent
  /-- A truth value. -/
  | truth (b : Bool)
  /-- A number. -/
  | number (x : Number)
  /-- A text. -/
  | text (s : String)
  /-- A list of trees. -/
  | list (items : List Tree)
  /-- A token. -/
  | token (t : Token)
  /-- A node of the typed syntax. -/
  | node (n : Node)

end

instance : Inhabited Tree := ⟨.absent⟩

/-- The value of a tree that counts as a number. The truth values count as one and zero. -/
def Tree.value? : Tree → Option ExactValue
  | .truth b => (Number.integer (if b then 1 else 0)).value?
  | .number x => x.value?
  | _ => none

mutual

/-- Whether two tokens are equal: their lexemes and locations do not matter. -/
def Token.same : Token → Token → Bool
  | ⟨kind, _, payload, _⟩, ⟨kind', _, payload', _⟩ => kind == kind' && payload.same payload'

/-- Whether two trees are equal. Numbers and truth values are compared by value. -/
def Tree.same : Tree → Tree → Bool
  | .absent, .absent => true
  | .text s, .text s' => s == s'
  | .list items, .list items' => Tree.sameAll items items'
  | .token t, .token t' => t.same t'
  | .node n, .node n' => n.same n'
  | x, y => sameValue x.value? y.value?

/-- Whether two lists of trees are equal, element by element. -/
def Tree.sameAll : List Tree → List Tree → Bool
  | [], [] => true
  | x :: xs, y :: ys => x.same y && Tree.sameAll xs ys
  | _, _ => false

end

mutual

/-- The description of a token. -/
def Token.describe : Token → Except UnwritableNumber String
  | ⟨kind, lexeme, payload, _⟩ =>
    let name := kind.name
    let lexeme := Text.quoted lexeme
    match payload with
    | .absent => .ok s!"Token({name}, {lexeme})"
    | payload => do
      let value ← payload.describe
      return s!"Token({name}, {lexeme}, {value})"

/-- The description of a tree: texts between quotes, lists between brackets. -/
def Tree.describe : Tree → Except UnwritableNumber String
  | .absent => .ok "None"
  | .truth b => .ok (if b then "True" else "False")
  | .number x => x.text
  | .text s => .ok (Text.quoted s)
  | .list items => do
    let texts ← Tree.describeAll items
    return "[" ++ ", ".intercalate texts ++ "]"
  | .token t => t.describe
  | .node n => n.describe

/-- The descriptions of trees. -/
def Tree.describeAll : List Tree → Except UnwritableNumber (List String)
  | [] => .ok []
  | x :: xs => do
    let text ← x.describe
    let texts ← Tree.describeAll xs
    return text :: texts

end

/-- Whether the lexeme of a token shows the value. -/
def Token.showsPayload (t : Token) : Bool :=
  match t.payload with
  | .absent => true
  | payload => payload.same (.text t.lexeme)

/-- The text of a token in messages. The value is shown only where the lexeme does not show it. -/
def Token.text (t : Token) : Except UnwritableNumber String :=
  let name := t.kind.name
  let lexeme := Text.quoted t.lexeme
  if t.showsPayload then .ok s!"{name}({lexeme})"
  else do
    let value ← t.payload.describe
    return s!"{name}({lexeme} -> {value})"

/-- The text of a tree by itself: a text is its own text, and a token is shown as in messages. -/
def Tree.display : Tree → Except UnwritableNumber String
  | .text s => .ok s
  | .token t => t.text
  | tree => tree.describe

/-- A kind of literals, where a keyword or delimiter is asked for. -/
structure NotAKeyword where
  kind : TokenKind
  deriving DecidableEq, Repr

/-- The words for a kind that has no spelling of its own. -/
def NotAKeyword.message (e : NotAKeyword) : String :=
  let name := e.kind.name
  s!"{name} is not a keyword or delimiter"

namespace Token

/-- The token of a keyword or delimiter, without a location. -/
def ofKeyword (kind : TokenKind) : Except NotAKeyword Token :=
  match kind.spelling? with
  | some spelling => .ok ⟨kind, spelling, .absent, none⟩
  | none => .error ⟨kind⟩

/-- A number token that carries the given value, without a location. The lexeme is the text of the
value. -/
def ofNumber (value : Tree) : Except UnwritableNumber Token := do
  let lexeme ← value.display
  return ⟨.number, lexeme, value, none⟩

/-- A string token for the text, without a location. The text is put between quotes as it is. -/
def ofText (s : String) : Token :=
  ⟨.string, "\x22" ++ s ++ "\x22", .text s, none⟩

end Token

end Conditions
