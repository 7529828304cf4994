import Conditions.Tree.Basic

/-!
# What can be described

A description fails for one reason only: the value holds a whole number with more digits than can be
written. So whether there is a description can be told from the whole numbers of a value.
-/

namespace Conditions

/-! ## Results -/

section
variable {α β ε : Type}

theorem bind_eq_ok_iff {x : Except ε α} {f : α → Except ε β} {b : β} :
    x >>= f = .ok b ↔ ∃ a, x = .ok a ∧ f a = .ok b := by
  cases x <;> simp [bind, Except.bind]

theorem map_eq_ok_iff {x : Except ε α} {f : α → β} {b : β} :
    x.map f = .ok b ↔ ∃ a, x = .ok a ∧ f a = b := by
  cases x <;> simp [Except.map]

/-- One result after another is there just if both are. -/
theorem exists_bind_ok_iff {x : Except ε α} {f : α → Except ε β} {P : Prop}
    (hf : ∀ a, (∃ b, f a = .ok b) ↔ P) : (∃ b, x >>= f = .ok b) ↔ (∃ a, x = .ok a) ∧ P := by
  cases x with
  | ok a => simpa [bind, Except.bind] using hf a
  | error e => simp [bind, Except.bind]

/-- A result that is put through a function is there just if it was before. -/
theorem exists_bind_pure_iff {x : Except ε α} {f : α → β} :
    (∃ b, (x >>= fun a => pure (f a)) = .ok b) ↔ ∃ a, x = .ok a := by
  cases x <;> simp [bind, Except.bind, pure, Except.pure]

theorem exists_mapM_ok_iff {f : α → Except ε β} {xs : List α} :
    (∃ ys, xs.mapM f = .ok ys) ↔ ∀ x ∈ xs, ∃ y, f x = .ok y := by
  induction xs with
  | nil => simp [pure, Except.pure]
  | cons x xs ih =>
    rw [List.mapM_cons, exists_bind_ok_iff fun _ => exists_bind_pure_iff, ih,
      List.forall_mem_cons]

end

/-! ## The whole numbers of a value -/

/-- A whole number that does not have too many digits. -/
def WithinDigitLimit (n : Int) : Prop :=
  (decimalDigits n.natAbs).length ≤ digitLimit

theorem exists_integerText_iff {n : Int} : (∃ s, integerText n = .ok s) ↔ WithinDigitLimit n := by
  unfold integerText WithinDigitLimit
  by_cases h : digitLimit < (decimalDigits n.natAbs).length
  · simp [h]
  · simpa [h] using Nat.not_lt.mp h

theorem lt_length_decimalDigits_pow {k : Nat} (h : 0 < k) :
    k < (decimalDigits (Nat.pow 10 k)).length := by
  rw [← Nat.not_le, decimalDigits, Nat.length_toDigits_le_iff (by decide) h]
  exact Nat.lt_irrefl _

theorem not_withinDigitLimit_pow : ¬ WithinDigitLimit (Nat.pow 10 digitLimit) := by
  rw [WithinDigitLimit, Int.natAbs_natCast, Nat.not_le]
  exact lt_length_decimalDigits_pow (by decide)

/-- The number, if it is whole. -/
def Number.wholeNumbers : Number → List Int
  | integer n => [n]
  | real _ => []

mutual

/-- The whole numbers in a condition. -/
def Condition.wholeNumbers : Condition → List Int
  | .equality _ value => value.wholeNumbers
  | .compound _ operands => wholeNumbersOfAll operands

/-- The whole numbers in conditions. -/
def Condition.wholeNumbersOfAll : List Condition → List Int
  | [] => []
  | c :: cs => c.wholeNumbers ++ wholeNumbersOfAll cs

end

/-- The whole numbers in a node. -/
def Node.wholeNumbers : Node → List Int
  | .number value => value.wholeNumbers
  | .wildcard | .variableRef _ => []
  | .valueSet values => values.flatMap Number.wholeNumbers
  | .condition c => c.wholeNumbers

mutual

/-- The whole numbers in the value of a token. -/
def Token.wholeNumbers : Token → List Int
  | ⟨_, _, payload, _⟩ => payload.wholeNumbers

/-- The whole numbers in a tree. -/
def Tree.wholeNumbers : Tree → List Int
  | .absent | .truth _ | .text _ => []
  | .number x => x.wholeNumbers
  | .list items => Tree.wholeNumbersOfAll items
  | .token t => t.wholeNumbers
  | .node n => n.wholeNumbers

/-- The whole numbers in trees. -/
def Tree.wholeNumbersOfAll : List Tree → List Int
  | [] => []
  | x :: xs => x.wholeNumbers ++ Tree.wholeNumbersOfAll xs

end

/-! ## Descriptions -/

theorem Number.exists_text_iff {x : Number} :
    (∃ s, x.text = .ok s) ↔ ∀ n ∈ x.wholeNumbers, WithinDigitLimit n := by
  cases x with
  | integer n => simpa [text, wholeNumbers] using exists_integerText_iff
  | real x => simp [text, wholeNumbers]

theorem Number.exists_describe_iff {x : Number} :
    (∃ s, x.describe = .ok s) ↔ ∀ n ∈ x.wholeNumbers, WithinDigitLimit n :=
  exists_bind_pure_iff.trans exists_text_iff

mutual

theorem Condition.exists_describe_iff :
    ∀ c : Condition, (∃ s, c.describe = .ok s) ↔ ∀ n ∈ c.wholeNumbers, WithinDigitLimit n
  | .equality _ _ => by
    rw [describe, wholeNumbers]
    exact exists_bind_pure_iff.trans Number.exists_describe_iff
  | .compound _ operands => by
    rw [describe, wholeNumbers]
    exact exists_bind_pure_iff.trans (Condition.exists_describeAll_iff operands)

theorem Condition.exists_describeAll_iff :
    ∀ cs : List Condition,
      (∃ texts, describeAll cs = .ok texts) ↔ ∀ n ∈ wholeNumbersOfAll cs, WithinDigitLimit n
  | [] => by simp [describeAll, wholeNumbersOfAll]
  | c :: cs => by
    rw [describeAll, wholeNumbersOfAll, exists_bind_ok_iff fun _ => exists_bind_pure_iff,
      Condition.exists_describe_iff c, Condition.exists_describeAll_iff cs,
      List.forall_mem_append]

end

theorem Node.exists_describe_iff {node : Node} :
    (∃ s, node.describe = .ok s) ↔ ∀ n ∈ node.wholeNumbers, WithinDigitLimit n := by
  cases node with
  | number value => exact Number.exists_describe_iff
  | wildcard | variableRef name => simp [describe, wholeNumbers]
  | valueSet values =>
    rw [describe, wholeNumbers, List.forall_mem_flatMap]
    refine exists_bind_pure_iff.trans (exists_mapM_ok_iff.trans ?_)
    simp only [Number.exists_describe_iff]
  | condition c => exact c.exists_describe_iff

mutual

theorem Token.exists_describe_iff :
    ∀ t : Token, (∃ s, t.describe = .ok s) ↔ ∀ n ∈ t.wholeNumbers, WithinDigitLimit n
  | ⟨kind, lexeme, payload, location⟩ => by
    have hpayload := Tree.exists_describe_iff payload
    cases payload with
    | absent => simp [Token.describe, Token.wholeNumbers, Tree.wholeNumbers]
    | _ => exact exists_bind_pure_iff.trans hpayload

theorem Tree.exists_describe_iff :
    ∀ tree : Tree, (∃ s, tree.describe = .ok s) ↔ ∀ n ∈ tree.wholeNumbers, WithinDigitLimit n
  | .absent | .truth _ | .text _ => by simp [Tree.describe, Tree.wholeNumbers]
  | .number x => Number.exists_text_iff
  | .list items => by
    rw [Tree.describe, Tree.wholeNumbers]
    exact exists_bind_pure_iff.trans (Tree.exists_describeAll_iff items)
  | .token t => Token.exists_describe_iff t
  | .node n => Node.exists_describe_iff

theorem Tree.exists_describeAll_iff :
    ∀ trees : List Tree,
      (∃ texts, Tree.describeAll trees = .ok texts) ↔
        ∀ n ∈ Tree.wholeNumbersOfAll trees, WithinDigitLimit n
  | [] => by simp [Tree.describeAll, Tree.wholeNumbersOfAll]
  | x :: xs => by
    rw [Tree.describeAll, Tree.wholeNumbersOfAll,
      exists_bind_ok_iff fun _ => exists_bind_pure_iff, Tree.exists_describe_iff x,
      Tree.exists_describeAll_iff xs, List.forall_mem_append]

end

/-- The token can be shown: its lexeme shows its value, or the value can be described. -/
def Token.Showable (t : Token) : Prop :=
  t.showsPayload ∨ ∀ n ∈ t.payload.wholeNumbers, WithinDigitLimit n

theorem Token.exists_text_iff {t : Token} : (∃ s, t.text = .ok s) ↔ t.Showable := by
  unfold Token.text Showable
  by_cases hshows : t.showsPayload
  · simp [hshows]
  · simp only [hshows, Bool.false_eq_true, if_false, false_or]
    exact exists_bind_pure_iff.trans (Tree.exists_describe_iff t.payload)

/-- A number is never shown by the lexeme, since no text equals it. -/
theorem Token.showable_iff_of_number {t : Token} {x : Number} (h : t.payload = .number x) :
    t.Showable ↔ ∀ n ∈ x.wholeNumbers, WithinDigitLimit n := by
  have hshows : t.showsPayload = false := by
    simp only [showsPayload, h, Tree.same, Tree.value?, sameValue_none]
  simp [Showable, hshows, h, Tree.wholeNumbers]

end Conditions
