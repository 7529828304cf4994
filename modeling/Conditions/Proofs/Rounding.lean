import Mathlib.Algebra.Order.Field.Power
import Mathlib.Tactic.Linarith
import Mathlib.Tactic.Positivity
import Mathlib.Tactic.Ring
import Conditions.Number.Binary64

/-!
# Rounding to the nearest binary64 number

A decimal becomes the binary64 number nearest to it, of two the one with an even mantissa, and an
infinity if it lies half a step or more above the greatest number. No other number is nearest.
-/

namespace Conditions

namespace Binary64

/-- A mantissa and an exponent of the format, except that the exponent may be too great. Each size
has only one. -/
structure Canonical (m : Nat) (e : Int) : Prop where
  lt_bound : m < mantissaBound
  least_le : leastExponent ≤ e
  normal : e = leastExponent ∨ leastNormal ≤ m

/-- The absolute value of a finite number. -/
def size (m : Nat) (e : Int) : ℚ :=
  m * 2 ^ e

/-- No size is nearer to `q`, and if another one is as near, then this one has an even mantissa. -/
structure Nearest (q : ℚ) (m : Nat) (e : Int) : Prop where
  canonical : Canonical m e
  le : ∀ m' e', Canonical m' e' → |q - size m e| ≤ |q - size m' e'|
  even : ∀ m' e', Canonical m' e' → |q - size m e| = |q - size m' e'| →
    size m' e' = size m e ∨ Even m

/-- Half a step above the greatest finite number. -/
def overflow : ℚ :=
  (mantissaBound - 1 / 2) * 2 ^ greatestExponent

/-- The absolute value `q` is rounded to the number. -/
inductive Rounded (negative : Bool) (q : ℚ) : Binary64 → Prop where
  | finite {m : Nat} {e : Int} : Nearest q m e → e ≤ greatestExponent →
      Rounded negative q (.finite negative m e)
  | infinite : overflow ≤ q → Rounded negative q (.infinite negative)

/-! ## Powers -/

theorem power_pos (base : Nat) (hbase : base ≠ 0) (e : Int) : 0 < power base e :=
  Nat.pow_pos (Nat.pos_of_ne_zero hbase)

theorem power_div_power (base : Nat) (hbase : base ≠ 0) (e : Int) :
    (power base e : ℚ) / power base (-e) = (base : ℚ) ^ e := by
  have hbase : (base : ℚ) ≠ 0 := Nat.cast_ne_zero.2 hbase
  obtain ⟨n, rfl | rfl⟩ := e.eq_nat_or_neg
  · simp [power]
  · simp [power]

theorem scaled_div (num den : Nat) (e : Int) :
    ((num * power 2 (-e) : Nat) : ℚ) / (den * power 2 e : Nat) = num / den / 2 ^ e := by
  have hpower := power_div_power 2 (by decide) e
  push_cast at hpower ⊢
  rw [← hpower, div_div_eq_mul_div, div_mul_eq_mul_div, div_div]

/-! ## Whole numbers -/

/-- The whole number is nearest to `r`, and even if there are two. -/
structure NearestWhole (r : ℚ) (m : Nat) : Prop where
  le_half : |r - m| ≤ 1 / 2
  even : |r - m| = 1 / 2 → Even m

theorem nearestWhole_roundedQuotient (num den : Nat) (hden : 0 < den) :
    NearestWhole (num / den) (roundedQuotient num den) := by
  have hpos : (0 : ℚ) < den := Nat.cast_pos.2 hden
  have hdiv : (num : ℚ) / den = (num / den : Nat) + (num % den : Nat) / den := by
    have h : (num : ℚ) = den * (num / den : Nat) + (num % den : Nat) := by
      exact_mod_cast (Nat.div_add_mod num den).symm
    rw [div_eq_iff hpos.ne', add_mul, div_mul_cancel₀ _ hpos.ne', mul_comm, ← h]
  have hlt : ((num % den : Nat) : ℚ) / den < 1 := by
    rw [div_lt_one hpos]
    exact_mod_cast Nat.mod_lt num hden
  have hnonneg : 0 ≤ ((num % den : Nat) : ℚ) / den := by positivity
  have hdown : |(num : ℚ) / den - (num / den : Nat)| = (num % den : Nat) / den := by
    rw [hdiv, add_sub_cancel_left, abs_of_nonneg hnonneg]
  have hup : |(num : ℚ) / den - (num / den + 1 : Nat)| = 1 - (num % den : Nat) / den := by
    rw [hdiv, Nat.cast_add, Nat.cast_one, add_sub_add_left_eq_sub, abs_sub_comm,
      abs_of_pos (sub_pos.2 hlt)]
  unfold roundedQuotient
  split
  · next h =>
    have hhalf : ((num % den : Nat) : ℚ) / den < 1 / 2 := by
      rw [div_lt_div_iff₀ hpos two_pos]
      have := Nat.compare_eq_lt.1 h
      norm_cast
      omega
    exact ⟨by rw [hdown]; exact hhalf.le, fun h => absurd (hdown.symm.trans h) hhalf.ne⟩
  · next h =>
    have hhalf : 1 / 2 < ((num % den : Nat) : ℚ) / den := by
      rw [div_lt_div_iff₀ two_pos hpos]
      have := Nat.compare_eq_gt.1 h
      norm_cast
      omega
    refine ⟨by rw [hup]; linarith, fun h => ?_⟩
    rw [hup] at h
    linarith
  · next h =>
    have hhalf : ((num % den : Nat) : ℚ) / den = 1 / 2 := by
      rw [div_eq_div_iff hpos.ne' two_ne_zero]
      have := Nat.compare_eq_eq.1 h
      norm_cast
      omega
    dsimp only
    split
    · next heven => exact ⟨by rw [hdown, hhalf], fun _ => Nat.even_iff.2 heven⟩
    · next hodd =>
      refine ⟨by rw [hup, hhalf]; norm_num, fun _ => ?_⟩
      exact Nat.even_add_one.2 (mt Nat.even_iff.1 hodd)

namespace NearestWhole

variable {r : ℚ} {m : Nat}

theorem half_le (h : NearestWhole r m) {k : Nat} (hk : k ≠ m) : 1 / 2 ≤ |r - k| := by
  have hone : (1 : ℚ) ≤ |(k : ℚ) - m| := by
    exact_mod_cast Int.one_le_abs (sub_ne_zero.2 (Nat.cast_injective.ne hk : (k : ℤ) ≠ m))
  have htriangle := abs_sub_le (k : ℚ) r m
  rw [abs_sub_comm (k : ℚ) r] at htriangle
  linarith [h.le_half]

theorem le_abs (h : NearestWhole r m) (k : Nat) : |r - m| ≤ |r - k| := by
  by_cases hk : k = m
  · rw [hk]
  · exact h.le_half.trans (h.half_le hk)

theorem eq_or_even (h : NearestWhole r m) {k : Nat} (hk : |r - m| = |r - k|) :
    k = m ∨ Even m := by
  by_cases heq : k = m
  · exact Or.inl heq
  · exact Or.inr (h.even (le_antisymm h.le_half (hk ▸ h.half_le heq)))

theorem le_of_lt (h : NearestWhole r m) {k : Nat} (hr : r < k) : m ≤ k := by
  have hlt : (m : ℚ) < k + 1 := by linarith [(abs_le.1 h.le_half).1]
  exact Nat.lt_succ_iff.1 (by exact_mod_cast hlt)

theorem le_of_le (h : NearestWhole r m) {k : Nat} (hr : k ≤ r) : k ≤ m := by
  have hlt : (k : ℚ) < m + 1 := by linarith [(abs_le.1 h.le_half).2]
  exact Nat.lt_succ_iff.1 (by exact_mod_cast hlt)

end NearestWhole

/-! ## Sizes -/

section
variable {m m' : Nat} {e e' : Int}

theorem size_le_size (h : m ≤ m') : size m e ≤ size m' e := by
  unfold size
  gcongr

/-- A number with a greater exponent is a multiple of the step. -/
theorem exists_size_eq (m : Nat) (h : e ≤ e') : ∃ k : Nat, size m e' = k * 2 ^ e := by
  obtain ⟨n, rfl⟩ := Int.le.dest h
  refine ⟨m * 2 ^ n, ?_⟩
  rw [size, zpow_add₀ two_ne_zero, zpow_natCast]
  push_cast
  ring

theorem size_mantissaBound (e : Int) : size mantissaBound e = size leastNormal (e + 1) := by
  have hbound : (mantissaBound : ℚ) = leastNormal * 2 := by norm_cast
  rw [size, size, zpow_add₀ two_ne_zero, zpow_one, hbound]
  ring

theorem size_leastNormal (e : Int) : size leastNormal e = 2 ^ (52 + e) := by
  rw [size, zpow_add₀ two_ne_zero]
  congr 1

/-- A number with a smaller exponent lies below those with a mantissa that is not too small. -/
theorem size_lt (hm : m < mantissaBound) (h : e' < e) : size m e' < size leastNormal e := by
  calc size m e' < size mantissaBound e' := by unfold size; gcongr
    _ = size leastNormal (e' + 1) := size_mantissaBound e'
    _ ≤ size leastNormal e := by unfold size; gcongr; exacts [one_le_two, h]

namespace Canonical

theorem exponent_le (h : Canonical m e) (h' : Canonical m' e') (hle : size m e ≤ size m' e') :
    e ≤ e' := by
  by_contra he
  have hnormal : leastNormal ≤ m := h.normal.resolve_left fun heq => by
    have := h'.least_le
    omega
  have hlt : size m' e' < size m e :=
    (size_lt h'.lt_bound (not_le.1 he)).trans_le (size_le_size hnormal)
  exact absurd hle (not_le.2 hlt)

theorem eq_of_size_eq (h : Canonical m e) (h' : Canonical m' e') (heq : size m e = size m' e') :
    m = m' ∧ e = e' := by
  obtain rfl : e = e' := le_antisymm (h.exponent_le h' heq.le) (h'.exponent_le h heq.ge)
  have hne : (2 : ℚ) ^ e ≠ 0 := by positivity
  exact ⟨by exact_mod_cast mul_right_cancel₀ hne heq, rfl⟩

/-- There is no number between one and the next one with its exponent. -/
theorem size_succ_le (h : Canonical m e) (h' : Canonical m' e') (hlt : size m e < size m' e') :
    size (m + 1) e ≤ size m' e' := by
  have hpos : (0 : ℚ) < 2 ^ e := by positivity
  obtain ⟨k, hk⟩ := exists_size_eq m' (h.exponent_le h' hlt.le)
  rw [hk] at hlt ⊢
  have hmk : m < k := by exact_mod_cast lt_of_mul_lt_mul_right hlt hpos.le
  exact size_le_size hmk

theorem succ (h : Canonical m e) (heven : Even m) : Canonical (m + 1) e := by
  have hbound : Even mantissaBound := by decide
  have hne : m + 1 ≠ mantissaBound := fun heq => Nat.even_add_one.1 (heq ▸ hbound) heven
  exact ⟨lt_of_le_of_ne h.lt_bound hne, h.least_le,
    h.normal.imp_right fun hle => hle.trans (Nat.le_succ m)⟩

end Canonical

/-! ## The nearest size -/

variable {q : ℚ}

theorem abs_sub_mul (q : ℚ) (k : Nat) (e : Int) : |q - k * 2 ^ e| = |q / 2 ^ e - k| * 2 ^ e := by
  have hpos : (0 : ℚ) < 2 ^ e := by positivity
  rw [← abs_of_pos hpos, ← abs_mul, abs_of_pos hpos, sub_mul, div_mul_cancel₀ _ hpos.ne']

/-- Rounding the mantissa at a fixed exponent gives the nearest size, if the mantissa is not too
small there. -/
theorem nearest_of_nearestWhole {k : Nat} (hlow : e = leastExponent ∨ size leastNormal e ≤ q)
    (h : NearestWhole (q / 2 ^ e) k) (hm : Canonical m e') (hsize : size m e' = k * 2 ^ e)
    (heven : Even k → Even m) : Nearest q m e' := by
  have hpos : (0 : ℚ) < 2 ^ e := by positivity
  -- What is no multiple of the step lies below the sizes that have it, and `q` does not.
  have hcases : ∀ m' e'', Canonical m' e'' → (∃ k' : Nat, size m' e'' = k' * 2 ^ e) ∨
      |q - size m e'| < |q - size m' e''| := by
    intro m' e'' hm'
    rcases le_or_gt e e'' with he | he
    · exact Or.inl (exists_size_eq m' he)
    · refine Or.inr ?_
      have hlow : size leastNormal e ≤ q := hlow.resolve_left fun h => by
        have := hm'.least_le
        omega
      have hlt := size_lt hm'.lt_bound he
      calc |q - size m e'| = |q / 2 ^ e - k| * 2 ^ e := by rw [hsize, abs_sub_mul]
        _ ≤ |q / 2 ^ e - leastNormal| * 2 ^ e :=
          mul_le_mul_of_nonneg_right (h.le_abs leastNormal) hpos.le
        _ = |q - size leastNormal e| := (abs_sub_mul q leastNormal e).symm
        _ = q - size leastNormal e := abs_of_nonneg (sub_nonneg.2 hlow)
        _ < q - size m' e'' := by linarith
        _ ≤ |q - size m' e''| := le_abs_self _
  refine ⟨hm, fun m' e'' hm' => ?_, fun m' e'' hm' heq => ?_⟩
  · rcases hcases m' e'' hm' with ⟨k', hk'⟩ | hlt
    · rw [hsize, hk', abs_sub_mul, abs_sub_mul]
      exact mul_le_mul_of_nonneg_right (h.le_abs k') hpos.le
    · exact hlt.le
  · rcases hcases m' e'' hm' with ⟨k', hk'⟩ | hlt
    · rw [hsize, hk', abs_sub_mul, abs_sub_mul] at heq
      rcases h.eq_or_even (mul_right_cancel₀ hpos.ne' heq) with rfl | hk
      · exact Or.inl (hk'.trans hsize.symm)
      · exact Or.inr (heven hk)
    · exact absurd heq hlt.ne

theorem nearest_zero : Nearest 0 0 leastExponent := by
  have hsize : size 0 leastExponent = 0 := by simp [size]
  refine ⟨⟨by decide, le_rfl, Or.inl rfl⟩, fun m' e' _ => ?_, fun m' e' _ _ => Or.inr Even.zero⟩
  rw [hsize, sub_zero, abs_zero]
  exact abs_nonneg _

namespace Nearest

/-- Of two sizes that are equally near and differ, one has an odd mantissa. -/
theorem size_le (h : Nearest q m e) (h' : Nearest q m' e') : size m' e' ≤ size m e := by
  by_contra hlt
  rw [not_le] at hlt
  have hdist : |q - size m e| = |q - size m' e'| :=
    le_antisymm (h.le m' e' h'.canonical) (h'.le m e h.canonical)
  have hmiddle : q - size m e = size m' e' - q := by
    rcases abs_eq_abs.1 hdist with heq | heq <;> linarith
  have heven : Even m := (h.even m' e' h'.canonical hdist).resolve_left hlt.ne'
  have heven' : Even m' := (h'.even m e h.canonical hdist.symm).resolve_left hlt.ne
  have hnext := h.canonical.succ heven
  have hstep : size m e < size (m + 1) e := by
    unfold size
    gcongr
    exact Nat.lt_succ_self m
  rcases (h.canonical.size_succ_le h'.canonical hlt).eq_or_lt with heq | hbetween
  · obtain ⟨rfl, -⟩ := hnext.eq_of_size_eq h'.canonical heq
    exact Nat.even_add_one.1 heven' heven
  · -- The next size lies between the two, as `q` does, and so is nearer.
    have hnear : |q - size (m + 1) e| < q - size m e := abs_lt.2 ⟨by linarith, by linarith⟩
    exact absurd (le_abs_self _) (not_le.2 ((h.le _ _ hnext).trans_lt hnear))

theorem unique (h : Nearest q m e) (h' : Nearest q m' e') : m = m' ∧ e = e' :=
  h.canonical.eq_of_size_eq h'.canonical (le_antisymm (h'.size_le h) (h.size_le h'))

/-- Only what is below half a step above the greatest number is rounded to a finite one. -/
theorem lt_overflow (h : Nearest q m e) (he : e ≤ greatestExponent) : q < overflow := by
  by_contra hq
  have htop : Canonical (mantissaBound - 1) greatestExponent :=
    ⟨by decide, by decide, Or.inr (by decide)⟩
  have hbeyond : Canonical leastNormal (greatestExponent + 1) :=
    ⟨by decide, by decide, Or.inr le_rfl⟩
  have hlt := size_lt h.canonical.lt_bound (Int.lt_add_one_iff.2 he)
  have hnear := h.le _ _ hbeyond
  have heven := h.even _ _ hbeyond
  rw [← size_mantissaBound] at hlt hnear heven
  have hle : size m e ≤ size (mantissaBound - 1) greatestExponent :=
    not_lt.1 fun h' => absurd (htop.size_succ_le h.canonical h') (not_le.2 hlt)
  have hmiddle : 2 * overflow =
      size (mantissaBound - 1) greatestExponent + size mantissaBound greatestExponent := by
    rw [overflow, size, size, Nat.cast_pred (by decide)]
    ring
  rcases le_or_gt (size mantissaBound greatestExponent) q with hq' | hq'
  · rw [abs_of_nonneg (by linarith), abs_of_nonneg (by linarith)] at hnear
    linarith
  · -- Then `q` lies in the middle, and the greatest number has an odd mantissa.
    rw [abs_of_nonneg (by linarith), abs_sub_comm, abs_of_nonneg (by linarith)] at hnear heven
    have heq : size m e = size (mantissaBound - 1) greatestExponent := by linarith
    obtain ⟨rfl, -⟩ := h.canonical.eq_of_size_eq htop heq
    rcases heven (by linarith) with h | h
    · exact absurd h hlt.ne'
    · exact absurd h (by decide)

end Nearest

theorem Rounded.unique {negative : Bool} {x y : Binary64} (hx : Rounded negative q x)
    (hy : Rounded negative q y) : x = y := by
  cases hx with
  | finite h he =>
    cases hy with
    | finite h' _ =>
      obtain ⟨rfl, rfl⟩ := h.unique h'
      rfl
    | infinite hq => exact absurd hq (not_le.2 (h.lt_overflow he))
  | infinite hq =>
    cases hy with
    | finite h he => exact absurd hq (not_le.2 (h.lt_overflow he))
    | infinite _ => rfl

end

/-! ## The exponent of a quotient -/

/-- The exponent at which the mantissa is rounded. -/
def stepExponent (num den : Nat) : Int :=
  let estimate := max leastExponent ((num.log2 : Int) - den.log2 - 53)
  if num * power 2 (-estimate) / (den * power 2 estimate) < mantissaBound then estimate
  else estimate + 1

theorem nearest_eq (negative : Bool) {num : Nat} (hnum : num ≠ 0) (den : Nat) :
    nearest negative num den =
      let e := stepExponent num den
      let m := roundedQuotient (num * power 2 (-e)) (den * power 2 e)
      if m < mantissaBound then bounded negative m e else bounded negative leastNormal (e + 1) := by
  rw [nearest, if_neg hnum]
  rfl

theorem zpow_log2_le {n : Nat} (hn : n ≠ 0) : (2 : ℚ) ^ (n.log2 : Int) ≤ n := by
  rw [zpow_natCast]
  exact_mod_cast Nat.log2_self_le hn

theorem lt_zpow_log2 (n : Nat) : (n : ℚ) < 2 ^ ((n.log2 : Int) + 1) := by
  exact_mod_cast Nat.lt_log2_self

section
variable {num den : Nat}

theorem div_lt_zpow_log2 (hden : den ≠ 0) :
    (num : ℚ) / den < 2 ^ ((num.log2 : Int) - den.log2 + 1) := by
  rw [div_lt_iff₀ (Nat.cast_pos.2 (Nat.pos_of_ne_zero hden))]
  calc (num : ℚ) < 2 ^ ((num.log2 : Int) + 1) := lt_zpow_log2 num
    _ = 2 ^ ((num.log2 : Int) - den.log2 + 1) * 2 ^ (den.log2 : Int) := by
      rw [← zpow_add₀ two_ne_zero]
      congr 1
      omega
    _ ≤ 2 ^ ((num.log2 : Int) - den.log2 + 1) * den := by
      gcongr
      exact zpow_log2_le hden

theorem zpow_log2_le_div (hnum : num ≠ 0) (hden : den ≠ 0) :
    2 ^ ((num.log2 : Int) - den.log2 - 1) ≤ (num : ℚ) / den := by
  rw [le_div_iff₀ (Nat.cast_pos.2 (Nat.pos_of_ne_zero hden))]
  calc (2 : ℚ) ^ ((num.log2 : Int) - den.log2 - 1) * den
      ≤ 2 ^ ((num.log2 : Int) - den.log2 - 1) * 2 ^ ((den.log2 : Int) + 1) := by
        gcongr
        exact (lt_zpow_log2 den).le
    _ = 2 ^ (num.log2 : Int) := by
      rw [← zpow_add₀ two_ne_zero]
      congr 1
      omega
    _ ≤ num := zpow_log2_le hnum

/-- At its exponent the quotient is below the bound of the mantissas, and not too small for them. -/
theorem stepExponent_spec (hnum : num ≠ 0) (hden : den ≠ 0) :
    leastExponent ≤ stepExponent num den ∧
      (stepExponent num den = leastExponent ∨
        size leastNormal (stepExponent num den) ≤ num / den) ∧
      (num / den : ℚ) < size mantissaBound (stepExponent num den) := by
  have hlt : (num : ℚ) / den < _ := div_lt_zpow_log2 hden
  have hle := zpow_log2_le_div hnum hden
  unfold stepExponent
  generalize hestimate : max leastExponent ((num.log2 : Int) - den.log2 - 53) = estimate
  dsimp only
  have hfloor : num * power 2 (-estimate) / (den * power 2 estimate) < mantissaBound ↔
      (num : ℚ) / den < size mantissaBound estimate := by
    have hpos : 0 < den * power 2 estimate :=
      Nat.mul_pos (Nat.pos_of_ne_zero hden) (power_pos 2 (by decide) _)
    rw [Nat.div_lt_iff_lt_mul hpos, size, ← div_lt_iff₀ (by positivity), ← scaled_div,
      div_lt_iff₀ (Nat.cast_pos.2 hpos)]
    norm_cast
  split
  · next h =>
    refine ⟨by omega, ?_, hfloor.1 h⟩
    rcases Int.le_total ((num.log2 : Int) - den.log2 - 53) leastExponent with h' | h'
    · exact Or.inl (by omega)
    · refine Or.inr (le_trans ?_ hle)
      rw [size_leastNormal]
      exact zpow_le_zpow_right₀ one_le_two (by omega)
  · next h =>
    refine ⟨by omega, Or.inr ?_, hlt.trans_le ?_⟩
    · rw [← size_mantissaBound]
      exact not_lt.1 (mt hfloor.2 h)
    · rw [size_mantissaBound, size_leastNormal]
      exact zpow_le_zpow_right₀ one_le_two (by omega)

end

/-! ## The nearest number -/

section
variable {q : ℚ} {e : Int}

theorem overflow_le (he : greatestExponent ≤ e) (h : (mantissaBound - 1 / 2) * 2 ^ e ≤ q) :
    overflow ≤ q := by
  have hone : (1 : ℚ) ≤ mantissaBound := Nat.one_le_cast.2 (by decide)
  refine le_trans (mul_le_mul_of_nonneg_left ?_ (by linarith)) h
  exact zpow_le_zpow_right₀ one_le_two he

theorem overflow_le_of_size_le (he : greatestExponent < e)
    (h : e = leastExponent ∨ size leastNormal e ≤ q) : overflow ≤ q := by
  have hsize : size leastNormal e ≤ q := h.resolve_left fun h => absurd (h ▸ he) (by decide)
  refine overflow_le (Int.le_sub_one_of_lt he) (le_trans ?_ hsize)
  rw [← sub_add_cancel e 1, ← size_mantissaBound, add_sub_cancel_right, size]
  gcongr
  linarith

theorem rounded_bounded {m : Nat} (negative : Bool) (h : Nearest q m e)
    (hoverflow : greatestExponent < e → overflow ≤ q) :
    Rounded negative q (bounded negative m e) := by
  unfold bounded
  split
  · next he => exact .finite h he
  · next he => exact .infinite (hoverflow (by omega))

theorem rounded_nearest (negative : Bool) (num : Nat) {den : Nat} (hden : den ≠ 0) :
    Rounded negative (num / den) (nearest negative num den) := by
  by_cases hnum : num = 0
  · rw [hnum, Nat.cast_zero, zero_div]
    exact .finite nearest_zero (by decide)
  rw [nearest_eq negative hnum]
  obtain ⟨hleast, hlow, hhigh⟩ := stepExponent_spec hnum hden
  generalize stepExponent num den = e at hleast hlow hhigh
  have hwhole := nearestWhole_roundedQuotient (num * power 2 (-e)) (den * power 2 e)
    (Nat.mul_pos (Nat.pos_of_ne_zero hden) (power_pos 2 (by decide) e))
  rw [scaled_div] at hwhole
  dsimp only
  generalize roundedQuotient (num * power 2 (-e)) (den * power 2 e) = m at hwhole
  generalize (num : ℚ) / den = q at hlow hhigh hwhole
  have hpos : (0 : ℚ) < 2 ^ e := by positivity
  split
  · next hm =>
    have hnormal : e = leastExponent ∨ leastNormal ≤ m :=
      hlow.imp_right fun h => hwhole.le_of_le ((le_div_iff₀ hpos).2 h)
    have hnearest : Nearest q m e :=
      nearest_of_nearestWhole hlow hwhole ⟨hm, hleast, hnormal⟩ rfl id
    exact rounded_bounded negative hnearest fun he => overflow_le_of_size_le he hlow
  · next hm =>
    -- The mantissa has been rounded up to its bound, and the exponent grows by one.
    obtain rfl : m = mantissaBound :=
      le_antisymm (hwhole.le_of_lt ((div_lt_iff₀ hpos).2 hhigh)) (not_lt.1 hm)
    have hcanonical : Canonical leastNormal (e + 1) := ⟨by decide, by omega, Or.inr le_rfl⟩
    have hnearest : Nearest q leastNormal (e + 1) :=
      nearest_of_nearestWhole hlow hwhole hcanonical (size_mantissaBound e).symm
        fun _ => by decide
    refine rounded_bounded negative hnearest fun he => ?_
    refine overflow_le (Int.lt_add_one_iff.1 he) ((le_div_iff₀ hpos).1 ?_)
    linarith [(abs_le.1 hwhole.le_half).1]

/-- A decimal becomes the number that it is rounded to. -/
theorem rounded_ofDecimal_iff {negative : Bool} {digits : Nat} {exponent : Int} {x : Binary64} :
    Rounded negative (digits * 10 ^ exponent) x ↔ x = ofDecimal negative digits exponent := by
  have hrounded :
      Rounded negative (digits * 10 ^ exponent) (ofDecimal negative digits exponent) := by
    have h := rounded_nearest negative (digits * power 10 exponent)
      (power_pos 10 (by decide) (-exponent)).ne'
    rwa [Nat.cast_mul, mul_div_assoc, power_div_power 10 (by decide)] at h
  constructor
  · intro h
    exact h.unique hrounded
  · rintro rfl
    exact hrounded

-- The number `2^53 + 1` lies in the middle of `2^53` and `2^53 + 2`.
example : ofDecimal false 9007199254740993 0 = .finite false 4503599627370496 1 := by decide

end

end Binary64

end Conditions
