import Conditions.Proofs.Layout
import Conditions.Proofs.SourceReading

/-!
# Writing conditions

Conditions as source text: each of them is written as a list of lexemes, which may then be laid out
in any way. Reading the text gives the condition back.
-/

namespace Conditions

/-! ## Names and numbers -/

/-- The text with a backslash in front of every quote and every backslash. -/
def escaped (cs : List Char) : List Char :=
  cs.flatMap fun c => if c = quoteMark ∨ c = '\\' then ['\\', c] else [c]

theorem stringText_escaped (cs : List Char) : StringText (escaped cs) cs := by
  induction cs with
  | nil => exact .nil
  | cons c cs ih =>
    unfold escaped at ih ⊢
    rw [List.flatMap_cons]
    by_cases hquote : c = quoteMark
    · rw [if_pos (Or.inl hquote), hquote]
      exact ih.escape
    by_cases hbackslash : c = '\\'
    · rw [if_pos (Or.inr hbackslash), hbackslash]
      exact ih.escape
    · rw [if_neg (not_or.2 ⟨hquote, hbackslash⟩)]
      exact ih.plain hquote hbackslash

/-- The digits, perhaps behind a minus sign, are a numeral of the number, and can be read. -/
structure IsNumeral (negative : Bool) (digits : List Char) (n : Int) : Prop where
  ne_nil : digits ≠ []
  isDigit : ∀ d ∈ digits, d.isDigit
  length_le : digits.length ≤ digitLimit
  value : (if negative then -(digitsValue digits : Int) else digitsValue digits) = n

theorem digitsValue_decimalDigits (n : Nat) : digitsValue (decimalDigits n) = n :=
  Nat.ofDigitChars_ten_toDigits

theorem isNumeral_decimalDigits {n : Int} (h : (decimalDigits n.natAbs).length ≤ digitLimit) :
    IsNumeral (decide (n < 0)) (decimalDigits n.natAbs) n := by
  refine ⟨Nat.toDigits_ne_nil, ?_, h, ?_⟩
  · intro d hd
    exact Nat.isDigit_of_mem_toDigits (by decide) (by decide) hd
  · rw [digitsValue_decimalDigits]
    by_cases hn : n < 0
    · rw [if_pos (decide_eq_true hn)]
      omega
    · rw [if_neg (by simpa using hn)]
      omega

/-! ## Conditions -/

/-- The kind of the keyword of a connective. -/
def Connective.tokenKind : Connective → TokenKind
  | and => .and
  | or => .or

namespace Condition

/-- The lexemes of a condition. Its keywords may be in any mixture of cases, and its numbers may
have leading zeros. -/
inductive Written : Condition → List Lexeme → Prop where
  | equality {name : String} {n : Int} {equals var digits : List Char} {negative : Bool} :
      equals.map Char.toUpper = "EQUALS".toList →
      var.map Char.toUpper = "VAR".toList → IsNumeral negative digits n →
      Written (.equality name (.integer n))
        [.leftParen, .keyword .equals equals, .leftParen, .keyword .var var,
          .string (escaped name.toList) name.toList, .rightParen, .integer negative digits,
          .rightParen]
  | compound {connective : Connective} {w : List Char} {parts : List (Condition × List Lexeme)} :
      w.map Char.toUpper = connective.name.toList → (∀ part ∈ parts, Written part.1 part.2) →
      Written (.compound connective (parts.map Prod.fst))
        (.leftParen :: .keyword connective.tokenKind w :: (parts.map Prod.snd).flatten ++
          [.rightParen])

/-- The numbers in the condition are whole, and none has more digits than can be read. -/
inductive Writable : Condition → Prop where
  | equality {name : String} {n : Int} : (decimalDigits n.natAbs).length ≤ digitLimit →
      Writable (.equality name (.integer n))
  | compound {connective : Connective} {operands : List Condition} :
      (∀ c ∈ operands, Writable c) → Writable (.compound connective operands)

theorem Written.valid {c : Condition} {ls : List Lexeme} (h : c.Written ls) :
    ∀ l ∈ ls, l.Valid := by
  induction h with
  | @equality name n equals var digits negative hequals hvar hn =>
    have hstring := Lexeme.Valid.string (stringText_escaped name.toList)
    have hnumber : (Lexeme.integer negative digits).Valid :=
      .integer hn.ne_nil hn.isDigit hn.length_le
    intro l hl
    simp only [List.mem_cons, List.not_mem_nil, or_false] at hl
    rcases hl with rfl | rfl | rfl | rfl | rfl | rfl | rfl | rfl
    · exact .leftParen
    · exact .keyword (by simp [keywords]) hequals
    · exact .leftParen
    · exact .keyword (by simp [keywords]) hvar
    · exact hstring
    · exact .rightParen
    · exact hnumber
    · exact .rightParen
  | @compound connective w parts hw _ ih =>
    have hkeyword : (connective.name, connective.tokenKind) ∈ keywords := by
      cases connective <;> simp [keywords, Connective.name, Connective.tokenKind]
    intro l hl
    simp only [List.cons_append, List.mem_cons, List.mem_append, List.not_mem_nil, or_false] at hl
    rcases hl with rfl | rfl | hl | rfl
    · exact .leftParen
    · exact .keyword hkeyword hw
    · obtain ⟨lexemes, hlexemes, hl⟩ := List.mem_flatten.1 hl
      obtain ⟨part, hpart, rfl⟩ := List.mem_map.1 hlexemes
      exact ih part hpart l hl
    · exact .rightParen

theorem exists_written_of_forall {operands : List Condition}
    (h : ∀ c ∈ operands, ∃ ls, c.Written ls) :
    ∃ parts : List (Condition × List Lexeme), parts.map Prod.fst = operands ∧
      ∀ part ∈ parts, part.1.Written part.2 := by
  induction operands with
  | nil => exact ⟨[], rfl, List.forall_mem_nil _⟩
  | cons c operands ih =>
    obtain ⟨ls, hls⟩ := h c List.mem_cons_self
    obtain ⟨parts, hparts, hwritten⟩ := ih fun d hd => h d (List.mem_cons_of_mem c hd)
    refine ⟨(c, ls) :: parts, by rw [List.map_cons, hparts], ?_⟩
    intro part hpart
    rcases List.mem_cons.1 hpart with rfl | hpart
    · exact hls
    · exact hwritten part hpart

/-- A condition whose numbers can be read can be written. -/
theorem exists_written {c : Condition} (h : c.Writable) : ∃ ls, c.Written ls := by
  induction h with
  | @equality name n hn =>
    have hequals : "EQUALS".toList.map Char.toUpper = "EQUALS".toList := by decide
    have hvar : "VAR".toList.map Char.toUpper = "VAR".toList := by decide
    exact ⟨_, .equality hequals hvar (isNumeral_decimalDigits hn)⟩
  | @compound connective operands _ ih =>
    have hword : connective.name.toList.map Char.toUpper = connective.name.toList := by
      cases connective <;> decide
    obtain ⟨parts, rfl, hparts⟩ := exists_written_of_forall ih
    exact ⟨_, .compound hword hparts⟩

end Condition

/-- Lexemes can be laid out with a blank in front of each. -/
theorem exists_spread (loose : Bool) (ls : List Lexeme) : ∃ text, Spread loose ls text := by
  induction ls generalizing loose with
  | nil => exact ⟨[], .nil (.layout .nil)⟩
  | cons l ls ih =>
    obtain ⟨text, htext⟩ := ih (!l.standsAlone)
    have hblank : Layout [' '] := .blank (by decide) .nil
    exact ⟨_, .cons hblank (fun _ _ => List.cons_ne_nil _ _) htext⟩

/-! ## Reading what is written -/

theorem Lexeme.kind_of_ofToken {t : Token} {l : Lexeme} (h : ofToken t = l) : t.kind = l.kind :=
  congrArg Lexeme.kind h

theorem Lexeme.payload_of_ofToken {t : Token} {l : Lexeme} (h : ofToken t = l) :
    t.payload = l.payload :=
  congrArg Lexeme.payload h

/-- The tokens of operands fall into the tokens of each. -/
theorem exists_derived {parts : List (Condition × List Lexeme)}
    (h : ∀ part ∈ parts, ∀ tokens, tokens.map Lexeme.ofToken = part.2 →
      ∃ tree, Derives .condition tokens tree ∧ tree.toCondition = .ok part.1) :
    ∀ tokens, tokens.map Lexeme.ofToken = (parts.map Prod.snd).flatten →
      ∃ derived : List (List Token × Tree), tokens = (derived.map Prod.fst).flatten ∧
        (∀ part ∈ derived, Derives .condition part.1 part.2) ∧
        Tree.toConditions (derived.map Prod.snd) = .ok (parts.map Prod.fst) := by
  induction parts with
  | nil =>
    intro tokens htokens
    exact ⟨[], List.map_eq_nil_iff.1 htokens, List.forall_mem_nil _, rfl⟩
  | cons part parts ih =>
    intro tokens htokens
    rw [List.map_cons, List.flatten_cons] at htokens
    obtain ⟨front, back, rfl, hfront, hback⟩ := List.map_eq_append_iff.1 htokens
    obtain ⟨tree, htree, hc⟩ := h part List.mem_cons_self front hfront
    obtain ⟨derived, rfl, hderived, hcs⟩ :=
      ih (fun part hpart => h part (List.mem_cons_of_mem _ hpart)) back hback
    refine ⟨(front, tree) :: derived, rfl, ?_, ?_⟩
    · intro part hpart
      rcases List.mem_cons.1 hpart with rfl | hpart
      · exact htree
      · exact hderived part hpart
    · rw [List.map_cons, Tree.toConditions, hc, hcs]
      rfl

/-- The tokens of a written condition derive a tree that stands for it. -/
theorem Condition.Written.derives {c : Condition} {ls : List Lexeme} (h : c.Written ls) :
    ∀ tokens, tokens.map Lexeme.ofToken = ls →
      ∃ tree, Derives .condition tokens tree ∧ tree.toCondition = .ok c := by
  induction h with
  | @equality name n equals var digits negative _ _ hn =>
    intro tokens htokens
    simp only [List.map_eq_cons_iff, List.map_eq_nil_iff] at htokens
    obtain ⟨l, _, rfl, hl, k, _, rfl, hk, l', _, rfl, hl', k', _, rfl, hk', s, _, rfl, hs, r', _,
      rfl, hr', x, _, rfl, hx, r, _, rfl, hr, rfl⟩ := htokens
    have hsubject := Derives.variableRef (Lexeme.kind_of_ofToken hl') (Lexeme.kind_of_ofToken hk')
      (.string (Lexeme.kind_of_ofToken hs)) (Lexeme.kind_of_ofToken hr')
    have hequality := Derives.equality (Lexeme.kind_of_ofToken hl) (Lexeme.kind_of_ofToken hk)
      hsubject (.number (Lexeme.kind_of_ofToken hx)) (Lexeme.kind_of_ofToken hr)
    have hequals : k.kind = .equals := Lexeme.kind_of_ofToken hk
    have hvar : k'.kind = .var := Lexeme.kind_of_ofToken hk'
    have hname : s.payload = .text name := by
      rw [Lexeme.payload_of_ofToken hs, Lexeme.string, String.ofList_toList]
    have hvalue : x.payload = .number (.integer n) := by
      rw [Lexeme.payload_of_ofToken hx, Lexeme.integer, hn.value]
    refine ⟨_, .ofEquality hequality, ?_⟩
    rw [hname, hvalue]
    simp only [Tree.toCondition, Tree.toVariable, Tree.toNumber, hequals, hvar, if_true]
    rfl
  | @compound connective w parts _ _ ih =>
    intro tokens htokens
    rw [List.cons_append, List.cons_append] at htokens
    obtain ⟨l, _, rfl, hl, htokens⟩ := List.map_eq_cons_iff.1 htokens
    obtain ⟨k, _, rfl, hk, htokens⟩ := List.map_eq_cons_iff.1 htokens
    obtain ⟨inner, _, rfl, hinner, hlast⟩ := List.map_eq_append_iff.1 htokens
    obtain ⟨r, rfl, hr⟩ := List.map_eq_singleton_iff.1 hlast
    obtain ⟨derived, rfl, hderived, hcs⟩ := exists_derived ih inner hinner
    have hkind : k.kind = connective.tokenKind := Lexeme.kind_of_ofToken hk
    have hconnective : k.kind = .and ∨ k.kind = .or := by
      cases connective with
      | and => exact Or.inl hkind
      | or => exact Or.inr hkind
    have hcompound := Derives.compound (Lexeme.kind_of_ofToken hl) hconnective hderived
      (Lexeme.kind_of_ofToken hr)
    refine ⟨_, .ofCompound hcompound, ?_⟩
    cases connective with
    | and =>
      rw [Connective.tokenKind] at hkind
      simp only [Tree.toCondition, hkind, hcs]
      rfl
    | or =>
      rw [Connective.tokenKind] at hkind
      simp only [Tree.toCondition, hkind, hcs]
      rfl

/-- Reading undoes writing. A condition whose numbers are whole, and short enough to be read, can be
written; and whatever the cases of its keywords, the zeros in front of its numbers and the layout of
its lexemes, what is read is the condition itself. -/
theorem readSource_written (c : Condition) (hc : c.Writable) :
    (∃ ls text, c.Written ls ∧ Spread false ls text) ∧
    ∀ ls text filename, c.Written ls → Spread false ls text →
      readSource (String.ofList text) filename = .ok (.condition c) := by
  constructor
  · obtain ⟨ls, hls⟩ := Condition.exists_written hc
    obtain ⟨text, htext⟩ := exists_spread false ls
    exact ⟨ls, text, hls, htext⟩
  · intro ls text filename hls htext
    obtain ⟨tokens, htokenize, htokens⟩ := htext.tokenize_eq hls.valid filename
    obtain ⟨tree, htree, htoCondition⟩ := hls.derives tokens htokens
    exact readSource_of_derives htokenize htree htoCondition

theorem readSource_written_nested :
    (Condition.compound .and [.equality "a\x22b" (.integer (-7)), .compound .or []]).Writable ∧
    ∃ ls text,
      (Condition.compound .and [.equality "a\x22b" (.integer (-7)), .compound .or []]).Written ls ∧
      Spread false ls text ∧
      readSource (String.ofList text) "f" = .ok (.condition
        (.compound .and [.equality "a\x22b" (.integer (-7)), .compound .or []])) := by
  have hequality : (Condition.equality "a\x22b" (.integer (-7))).Writable := .equality (by decide)
  have hempty : (Condition.compound .or []).Writable := .compound (List.forall_mem_nil _)
  have hc : (Condition.compound .and
      [.equality "a\x22b" (.integer (-7)), .compound .or []]).Writable := by
    apply Condition.Writable.compound
    intro c hmem
    simp only [List.mem_cons, List.not_mem_nil, or_false] at hmem
    rcases hmem with rfl | rfl
    · exact hequality
    · exact hempty
  obtain ⟨⟨ls, text, hls, htext⟩, hread⟩ := readSource_written _ hc
  exact ⟨hc, ls, text, hls, htext, hread ls text "f" hls htext⟩

end Conditions
