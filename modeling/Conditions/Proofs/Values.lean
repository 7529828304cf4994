import Conditions.Proofs.Layout
import Conditions.Proofs.Rounding

/-!
# The values of lexemes

Keywords and parentheses denote a kind only, numbers and strings a value as well. However lexemes
are laid out, they are lexed to tokens that carry what they denote.
-/

namespace Conditions

/-- The absolute value that a decimal with these digits before and behind the point denotes. -/
def decimalValue (whole fraction : List Char) : ℚ :=
  digitsValue whole + digitsValue fraction / 10 ^ fraction.length

theorem digitsValue_append (cs ds : List Char) :
    digitsValue (cs ++ ds) = 10 ^ ds.length * digitsValue cs + digitsValue ds := by
  have happend : digitsValue (cs ++ ds) = Nat.ofDigitChars 10 ds (digitsValue cs) :=
    Nat.ofDigitChars_append 0
  rw [happend, Nat.ofDigitChars_eq_ofDigitChars_zero]
  rfl

theorem decimalValue_eq (whole fraction : List Char) :
    decimalValue whole fraction =
      digitsValue (whole ++ fraction) * 10 ^ (-fraction.length : Int) := by
  have hne : (10 : ℚ) ^ fraction.length ≠ 0 := by positivity
  rw [decimalValue, digitsValue_append, zpow_neg, zpow_natCast, div_eq_mul_inv]
  push_cast
  rw [add_mul, mul_comm (10 ^ fraction.length), mul_inv_cancel_right₀ hne]

namespace Lexeme

/-- The kind and the payload of the lexeme are what its text denotes. A decimal denotes the binary64
number nearest to it. -/
inductive Denotes : Lexeme → Prop where
  | spelling {spelling : String} {w : List Char} {kind : TokenKind} :
      kind.spelling? = some spelling → w.map Char.toUpper = spelling.toList →
      Denotes ⟨w, kind, .absent⟩
  | integer {negative : Bool} {digits : List Char} : digits ≠ [] → (∀ d ∈ digits, d.isDigit) →
      Denotes ⟨(if negative then ['-'] else []) ++ digits, .number,
        .number (.integer (if negative then -digitsValue digits else digitsValue digits))⟩
  | decimal {negative : Bool} {whole fraction : List Char} {x : Binary64} :
      whole ≠ [] → fraction ≠ [] → (∀ d ∈ whole, d.isDigit) → (∀ d ∈ fraction, d.isDigit) →
      Binary64.Rounded negative (decimalValue whole fraction) x →
      Denotes ⟨(if negative then ['-'] else []) ++ whole ++ '.' :: fraction, .number,
        .number (.real x)⟩
  | string {body meant : List Char} : StringText body meant →
      Denotes ⟨quoteMark :: body ++ [quoteMark], .string, .text (String.ofList meant)⟩

theorem Valid.denotes {l : Lexeme} (h : l.Valid) : l.Denotes := by
  cases h with
  | leftParen => exact .spelling rfl rfl
  | rightParen => exact .spelling rfl rfl
  | keyword hmem hw =>
    have hspelling : ∀ entry ∈ keywords, entry.2.spelling? = some entry.1 := by decide
    exact .spelling (hspelling _ hmem) hw
  | integer hne hdigits _ => exact .integer hne hdigits
  | decimal hne hne' hwhole hfraction =>
    apply Denotes.decimal hne hne' hwhole hfraction
    rw [decimalValue_eq]
    exact Binary64.rounded_ofDecimal_iff.2 rfl
  | string hbody => exact .string hbody

end Lexeme

/-- Lexing undoes writing. Whatever the layout of the lexemes, the text is lexed without an error to
their tokens, each of which is what its lexeme denotes. -/
theorem lex_spread {ls : List Lexeme} {text : List Char} (hvalid : ∀ l ∈ ls, l.Valid)
    (h : Spread false ls text) (filename : String) :
    (lex (String.ofList text) filename).errors = [] ∧
      (lex (String.ofList text) filename).oversized? = none ∧
      (lex (String.ofList text) filename).tokens.map Lexeme.ofToken = ls ∧
      ∀ t ∈ (lex (String.ofList text) filename).tokens, (Lexeme.ofToken t).Denotes := by
  obtain ⟨tokens, stop, hlexing, htokens⟩ := (h.lexes hvalid).1 filename .start
  rw [lex, String.toList_ofList, hlexing]
  refine ⟨rfl, rfl, htokens, ?_⟩
  intro t ht
  apply Lexeme.Valid.denotes
  apply hvalid
  rw [← htokens]
  exact List.mem_map_of_mem ht

theorem lex_spread_dense :
    ∃ ls text, ls = [.leftParen, .keyword .or ['O', 'r'], .string ['a', '\\', 'n'] ['a', '\n'],
        .integer true ['0', '7'], .decimal false ['2'] ['5'], .rightParen,
        .keyword .wildcard ['_']] ∧
      String.ofList text = "(Or\x22a\\n\x22-07;x\n2.5)_;end" ∧
      (∀ l ∈ ls, l.Valid) ∧ Spread false ls text ∧
      (lex (String.ofList text) "f").errors = [] ∧
      (lex (String.ofList text) "f").oversized? = none ∧
      (lex (String.ofList text) "f").tokens.map Lexeme.ofToken = ls ∧
      ∀ t ∈ (lex (String.ofList text) "f").tokens, (Lexeme.ofToken t).Denotes := by
  have hstring : StringText ['a', '\\', 'n'] ['a', '\n'] :=
    .plain (by decide) (by decide) (.escape .nil)
  have hcomment : Layout (';' :: ['x'] ++ '\n' :: []) := .comment (by decide) .nil
  have hlast : LastLayout ([] ++ ';' :: ['e', 'n', 'd']) := .comment .nil (by decide)
  have h : Spread false _ _ :=
    .cons (l := .leftParen) .nil nofun <|
    .cons (l := .keyword .or ['O', 'r']) .nil nofun <|
    .cons (l := .string ['a', '\\', 'n'] ['a', '\n']) .nil nofun <|
    .cons (l := .integer true ['0', '7']) .nil nofun <|
    .cons (l := .decimal false ['2'] ['5']) hcomment nofun <|
    .cons (l := .rightParen) .nil nofun <|
    .cons (l := .keyword .wildcard ['_']) .nil nofun <| .nil hlast
  refine ⟨_, _, rfl, by decide, ?valid, h, lex_spread ?valid h "f"⟩
  intro l hl
  simp only [List.mem_cons, List.not_mem_nil, or_false] at hl
  rcases hl with rfl | rfl | rfl | rfl | rfl | rfl | rfl
  · exact .leftParen
  · exact .keyword (show ("OR", .or) ∈ keywords by decide) (by decide)
  · exact .string hstring
  · exact .integer (by decide) (by simp) (by decide)
  · exact .decimal (by decide) (by decide) (by simp) (by simp)
  · exact .rightParen
  · exact .keyword (show ("_", .wildcard) ∈ keywords by decide) (by decide)

end Conditions
