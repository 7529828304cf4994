import Conditions.Lexing.Piece
import Conditions.Text.Decoding

/-!
# Lexing

Turning a source text into tokens. Faults are collected and lexing goes on behind them, so one run
finds every fault. Only a whole number with too many digits breaks the run off.
-/

namespace Conditions

/-- The outcome of lexing a text. -/
structure Lexing where
  tokens : List Token
  errors : List LexicalError
  /-- Where the run ended. -/
  stop : Position
  /-- The number at which the run broke off, if it did. -/
  oversized? : Option OversizedNumber

/-- Collects the tokens and the faults of pieces that begin at the position `p`. -/
def Lexing.ofPieces (filename : String) (p : Position) : List Piece → Lexing
  | [] => ⟨[], [], p, none⟩
  | .blank c :: rest => ofPieces filename (p.advance c) rest
  | .comment text :: rest => ofPieces filename (p.after text) rest
  | .lexeme (.token kind payload) text :: rest =>
    let lexing := ofPieces filename (p.after text) rest
    let token := ⟨kind, String.ofList text, payload, some (p.locate filename)⟩
    { lexing with tokens := token :: lexing.tokens }
  | .lexeme (.fault fault) text :: rest =>
    let lexing := ofPieces filename (p.after text) rest
    { lexing with errors := ⟨fault, p.locate filename⟩ :: lexing.errors }
  | .lexeme (.oversized e) text :: _ => ⟨[], [], p.after text, some e⟩

/-- Lexes a source text. -/
def lex (source filename : String) : Lexing :=
  Lexing.ofPieces filename .start (pieces source.toList)

/-- Why a source text has no tokens. -/
inductive SourceError where
  /-- A whole number has too many digits. -/
  | oversized (e : OversizedNumber)
  /-- The text has a lexical error. -/
  | lexical (e : LexicalError)
  deriving DecidableEq, Repr

/-- The tokens of a source text, or the first of its errors. A number with too many digits takes
precedence over all errors. -/
def tokenize (source filename : String) : Except SourceError (List Token) :=
  let lexing := lex source filename
  match lexing.oversized?, lexing.errors with
  | some e, _ => .error (.oversized e)
  | none, e :: _ => .error (.lexical e)
  | none, [] => .ok lexing.tokens

/-- Why a file has no tokens. -/
inductive FileError where
  /-- There is no such file. -/
  | missing (filename : String)
  /-- The file does not decode. -/
  | undecodable (e : Text.DecodingError)
  /-- The text of the file has no tokens. -/
  | source (e : SourceError)
  deriving DecidableEq, Repr

/-- The words for a missing file. -/
def missingFileMessage (filename : String) : String :=
  let filename := Text.quoted filename
  s!"[Errno 2] No such file or directory: {filename}"

/-- The tokens of a file with the given bytes, which are absent if the file does not exist. -/
def tokenizeFile (filename : String) (encoding : Text.Encoding) (bytes? : Option (List UInt8)) :
    Except FileError (List Token) :=
  match bytes? with
  | none => .error (.missing filename)
  | some bytes =>
    match Text.readText encoding bytes with
    | .error e => .error (.undecodable e)
    | .ok source => (tokenize source filename).mapError .source

end Conditions
