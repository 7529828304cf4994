import Conditions.Text.Distance
import Mathlib.Order.Bounds.Basic
import Mathlib.Order.MinMax

/-!
# Edit distance is least

An edit inserts, deletes or replaces a single character anywhere in a text, and the edits that lead
from one text to another may come in any order and undo each other. Between them stand the
alignments, which pass over both texts once, from the front. An edit in front of an alignment is
taken up by it at the cost of one, so no number of edits is less than that of the cheapest
alignment. What an alignment costs can be told from the rest of both texts, and this is how the
table is filled, row by row. The table takes the texts from their ends, and so the cells are the
costs of prefixes read backwards.
-/

namespace Conditions.Text

/-- A single character is inserted, deleted or replaced. -/
inductive Edit : List Char → List Char → Prop where
  | insert (c : Char) (cs : List Char) : Edit cs (c :: cs)
  | delete (c : Char) (cs : List Char) : Edit (c :: cs) cs
  | replace (c d : Char) (cs : List Char) : Edit (c :: cs) (d :: cs)
  | behind (c : Char) {cs ds : List Char} : Edit cs ds → Edit (c :: cs) (c :: ds)

/-- A number of edits, one after the other, turns the first text into the second. -/
inductive Edits : Nat → List Char → List Char → Prop where
  | none (a : List Char) : Edits 0 a a
  | first {n : Nat} {a b c : List Char} : Edit a b → Edits n b c → Edits (n + 1) a c

section
variable {a b c : List Char} {n m : Nat}

/-! ### Laws of edits -/

theorem Edit.symm (h : Edit a b) : Edit b a := by
  induction h with
  | insert c cs => exact .delete c cs
  | delete c cs => exact .insert c cs
  | replace c d cs => exact .replace d c cs
  | behind c _ ih => exact .behind c ih

theorem Edit.append_right (h : Edit a b) (w : List Char) : Edit (a ++ w) (b ++ w) := by
  induction h with
  | insert c cs => exact .insert c (cs ++ w)
  | delete c cs => exact .delete c (cs ++ w)
  | replace c d cs => exact .replace c d (cs ++ w)
  | behind c _ ih => exact .behind c ih

theorem Edit.append_left (h : Edit a b) : ∀ w : List Char, Edit (w ++ a) (w ++ b)
  | [] => h
  | c :: w => .behind c (h.append_left w)

theorem Edit.reverse (h : Edit a b) : Edit a.reverse b.reverse := by
  induction h with
  | insert c cs => simpa using (Edit.insert c []).append_left cs.reverse
  | delete c cs => simpa using (Edit.delete c []).append_left cs.reverse
  | replace c d cs => simpa using (Edit.replace c d []).append_left cs.reverse
  | behind c _ ih => simpa using ih.append_right [c]

namespace Edits

theorem single (h : Edit a b) : Edits 1 a b :=
  .first h (.none b)

theorem trans (h : Edits n a b) (h' : Edits m b c) : Edits (n + m) a c := by
  induction h with
  | none a => simpa using h'
  | first hedit _ ih =>
    rw [Nat.add_right_comm]
    exact .first hedit (ih h')

theorem symm (h : Edits n a b) : Edits n b a := by
  induction h with
  | none a => exact .none a
  | first hedit _ ih => exact ih.trans (.single hedit.symm)

theorem behind (c : Char) (h : Edits n a b) : Edits n (c :: a) (c :: b) := by
  induction h with
  | none a => exact .none (c :: a)
  | first hedit _ ih => exact .first (.behind c hedit) ih

theorem reverse (h : Edits n a b) : Edits n a.reverse b.reverse := by
  induction h with
  | none a => exact .none a.reverse
  | first hedit _ ih => exact .first hedit.reverse ih

theorem zero_iff : Edits 0 a b ↔ a = b := by
  constructor
  · intro h
    cases h
    rfl
  · intro h
    subst h
    exact .none a

theorem reverse_iff : Edits n a.reverse b.reverse ↔ Edits n a b := by
  refine ⟨fun h => ?_, reverse⟩
  simpa using h.reverse

theorem symm_iff : Edits n a b ↔ Edits n b a :=
  ⟨symm, symm⟩

end Edits

/-! ### Alignments -/

/-- The texts are gone through side by side, where `n` characters are inserted, deleted or
replaced. -/
inductive Aligned : Nat → List Char → List Char → Prop where
  | nil : Aligned 0 [] []
  | insert {n : Nat} {a b : List Char} (d : Char) : Aligned n a b → Aligned (n + 1) a (d :: b)
  | delete {n : Nat} {a b : List Char} (c : Char) : Aligned n a b → Aligned (n + 1) (c :: a) b
  | replace {n : Nat} {a b : List Char} (c d : Char) : Aligned n a b →
      Aligned (n + 1) (c :: a) (d :: b)
  | keep {n : Nat} {a b : List Char} (c : Char) : Aligned n a b → Aligned n (c :: a) (c :: b)

namespace Aligned

theorem refl : ∀ a : List Char, Aligned 0 a a
  | [] => .nil
  | c :: a => .keep c (refl a)

theorem edits (h : Aligned n a b) : Edits n a b := by
  induction h with
  | nil => exact .none []
  | @insert n a b d _ ih => exact .first (.insert d a) (ih.behind d)
  | @delete n a b c _ ih => exact .first (.delete c a) ih
  | @replace n a b c d _ ih => exact .first (.replace c d a) (ih.behind d)
  | keep c _ ih => exact ih.behind c

/-- An edit in front of an alignment is taken up by it. The induction is on the alignment: the edit
is made where it begins, or behind. -/
theorem of_edit (h : Aligned n b c) (hedit : Edit a b) : ∃ m, Aligned m a c ∧ m ≤ n + 1 := by
  induction h generalizing a with
  | nil =>
    cases hedit with
    | delete x => exact ⟨1, .delete x .nil, by omega⟩
  | insert d _ ih =>
    obtain ⟨m, hm, hle⟩ := ih hedit
    exact ⟨m + 1, .insert d hm, by omega⟩
  | delete x h ih =>
    cases hedit with
    | insert => exact ⟨_, h, by omega⟩
    | delete y => exact ⟨_, .delete y (.delete x h), by omega⟩
    | replace y => exact ⟨_, .delete y h, by omega⟩
    | behind _ hedit =>
      obtain ⟨m, hm, hle⟩ := ih hedit
      exact ⟨m + 1, .delete x hm, by omega⟩
  | replace x d h ih =>
    cases hedit with
    | insert => exact ⟨_, .insert d h, by omega⟩
    | delete y => exact ⟨_, .delete y (.replace x d h), by omega⟩
    | replace y => exact ⟨_, .replace y d h, by omega⟩
    | behind _ hedit =>
      obtain ⟨m, hm, hle⟩ := ih hedit
      exact ⟨m + 1, .replace x d hm, by omega⟩
  | keep x h ih =>
    cases hedit with
    | insert => exact ⟨_, .insert x h, by omega⟩
    | delete y => exact ⟨_, .delete y (.keep x h), by omega⟩
    | replace y => exact ⟨_, .replace y x h, by omega⟩
    | behind _ hedit =>
      obtain ⟨m, hm, hle⟩ := ih hedit
      exact ⟨m, .keep x hm, hle⟩

/-- No sequence of edits is shorter than every alignment. -/
theorem of_edits (h : Edits n a b) : ∃ m, Aligned m a b ∧ m ≤ n := by
  induction h with
  | none a => exact ⟨0, refl a, Nat.le_refl 0⟩
  | first hedit _ ih =>
    obtain ⟨m, hm, hle⟩ := ih
    obtain ⟨k, hk, hle'⟩ := hm.of_edit hedit
    exact ⟨k, hk, by omega⟩

end Aligned

/-! ### Distances -/

/-- The shortest sequences of edits that turn the first text into the second have `n` edits. -/
def IsDistance (a b : List Char) (n : Nat) : Prop :=
  IsLeast {n | Edits n a b} n

namespace IsDistance

theorem of_aligned (h : Aligned n a b) (hle : ∀ m, Aligned m a b → n ≤ m) : IsDistance a b n := by
  refine ⟨h.edits, fun k hk => ?_⟩
  obtain ⟨m, hm, hmk⟩ := Aligned.of_edits hk
  exact Nat.le_trans (hle m hm) hmk

theorem le_of_aligned (h : IsDistance a b n) (hm : Aligned m a b) : n ≤ m :=
  h.2 hm.edits

/-- There is an alignment that is as cheap as can be. -/
theorem aligned (h : IsDistance a b n) : Aligned n a b := by
  obtain ⟨m, hm, hle⟩ := Aligned.of_edits h.1
  have heq : m = n := Nat.le_antisymm hle (h.le_of_aligned hm)
  rwa [heq] at hm

theorem reverse_iff : IsDistance a.reverse b.reverse n ↔ IsDistance a b n := by
  simp only [IsDistance, Edits.reverse_iff]

theorem symm (h : IsDistance a b n) : IsDistance b a n := by
  simp only [IsDistance, Edits.symm_iff (a := b)]
  exact h

/-! A text is turned into one without characters by deletions, and made from one by insertions. -/

theorem nil : IsDistance [] [] 0 :=
  of_aligned .nil fun m _ => Nat.zero_le m

theorem cons_nil (c : Char) (h : IsDistance a [] n) : IsDistance (c :: a) [] (n + 1) := by
  refine of_aligned (.delete c h.aligned) fun m hm => ?_
  cases hm with
  | delete _ hm => exact Nat.succ_le_succ (h.le_of_aligned hm)

theorem nil_cons (d : Char) (h : IsDistance [] b n) : IsDistance [] (d :: b) (n + 1) := by
  refine of_aligned (.insert d h.aligned) fun m hm => ?_
  cases hm with
  | insert _ hm => exact Nat.succ_le_succ (h.le_of_aligned hm)

theorem length_nil : ∀ a : List Char, IsDistance a [] a.length
  | [] => nil
  | c :: a => (length_nil a).cons_nil c

/-- What can be done about the first characters: either of them is taken away, or both are. -/
theorem cons {c d : Char} {above left corner : Nat} (habove : IsDistance a (d :: b) above)
    (hleft : IsDistance (c :: a) b left) (hcorner : IsDistance a b corner) :
    IsDistance (c :: a) (d :: b)
      (min (min (above + 1) (left + 1)) (corner + if c = d then 0 else 1)) := by
  have hboth : Aligned (corner + if c = d then 0 else 1) (c :: a) (d :: b) := by
    by_cases hcd : c = d
    · rw [if_pos hcd, hcd]
      exact .keep d hcorner.aligned
    · rw [if_neg hcd]
      exact .replace c d hcorner.aligned
  apply of_aligned
  · rcases min_choice (min (above + 1) (left + 1)) (corner + if c = d then 0 else 1) with h | h
    · rw [h]
      rcases min_choice (above + 1) (left + 1) with h | h
      · rw [h]
        exact .delete c habove.aligned
      · rw [h]
        exact .insert d hleft.aligned
    · rw [h]
      exact hboth
  · intro m hm
    cases hm with
    | insert _ hm =>
      have := hleft.le_of_aligned hm
      omega
    | delete _ hm =>
      have := habove.le_of_aligned hm
      omega
    | replace _ _ hm =>
      have := hcorner.le_of_aligned hm
      split <;> omega
    | keep _ hm =>
      have := hcorner.le_of_aligned hm
      rw [if_pos rfl]
      omega

end IsDistance

/-! ### The rows of the table -/

/-- The cells are the distances from `p` to the texts that begin with `q` and go on with more and
more of the characters behind it. Both `p` and `q` are read from their ends. -/
inductive Cells (p : List Char) : List Char → List Char → List Nat → Prop where
  | nil (q : List Char) : Cells p q [] []
  | cons {q ds : List Char} {d : Char} {n : Nat} {ns : List Nat} : IsDistance p (d :: q) n →
      Cells p (d :: q) ds ns → Cells p q (d :: ds) (n :: ns)

/-- The row of the distances from `p`, read from its end, to the texts that `b` begins with. -/
inductive IsRow (p b : List Char) : List Nat → Prop where
  | cons {n : Nat} {ns : List Nat} : IsDistance p [] n → Cells p [] b ns → IsRow p b (n :: ns)

theorem cells_range' {q : List Char} (hq : IsDistance [] q n) (ds : List Char) :
    Cells [] q ds (List.range' (n + 1) ds.length) := by
  induction ds generalizing q n with
  | nil => exact .nil q
  | cons d ds ih =>
    rw [List.length_cons, List.range'_succ]
    exact .cons (hq.nil_cons d) (ih (hq.nil_cons d))

theorem isRow_range (b : List Char) : IsRow [] b (List.range (b.length + 1)) := by
  rw [List.range_eq_range', List.range'_succ]
  exact .cons .nil (cells_range' .nil b)

/-- The cells that are filled in follow from those of the row before and from the cell to the
left. -/
theorem Cells.fillRow {p q ds : List Char} {ns : List Nat} (h : Cells p q ds ns) (c : Char)
    {corner left : Nat} (hcorner : IsDistance p q corner) (hleft : IsDistance (c :: p) q left) :
    Cells (c :: p) q ds (fillRow c corner left ds ns) := by
  induction h generalizing corner left with
  | nil q => exact .nil q
  | cons habove _ ih =>
    have hcell := IsDistance.cons habove hleft hcorner
    exact .cons hcell (ih habove hcell)

theorem IsRow.nextRow {p b : List Char} {row : List Nat} (h : IsRow p b row) (c : Char) :
    IsRow (c :: p) b (nextRow b row c) := by
  cases h with
  | cons hcorner hcells =>
    have hleft := hcorner.cons_nil c
    exact .cons hleft (hcells.fillRow c hcorner hleft)

theorem IsRow.foldl {p b : List Char} {row : List Nat} (h : IsRow p b row) (a : List Char) :
    IsRow (a.reverse ++ p) b (a.foldl (Text.nextRow b) row) := by
  induction a generalizing p row with
  | nil => exact h
  | cons c a ih =>
    rw [List.reverse_cons, List.append_assoc]
    exact ih (h.nextRow c)

/-- The last cell is the distance to the whole text. -/
theorem Cells.getLastD {p q ds : List Char} {ns : List Nat} (h : Cells p q ds ns)
    (hq : IsDistance p q n) : IsDistance p (ds.reverse ++ q) (ns.getLastD n) := by
  induction h generalizing n with
  | nil q => exact hq
  | cons hcell _ ih =>
    rw [List.reverse_cons, List.append_assoc, List.getLastD_cons]
    exact ih hcell

theorem IsRow.getLastD {p b : List Char} {row : List Nat} (h : IsRow p b row) :
    IsDistance p b.reverse (row.getLastD 0) := by
  cases h with
  | cons hfirst hcells =>
    rw [List.getLastD_cons, ← List.append_nil b.reverse]
    exact hcells.getLastD hfirst

theorem isDistance_distanceAlong (a b : List Char) : IsDistance a b (distanceAlong a b) := by
  unfold distanceAlong
  split
  · next hempty =>
    rw [List.isEmpty_iff.mp hempty]
    exact .length_nil a
  · have hrow := (isRow_range b).foldl a
    rw [List.append_nil] at hrow
    exact IsDistance.reverse_iff.mp hrow.getLastD

end

theorem isDistance_editDistance (a b : String) :
    IsDistance a.toList b.toList (editDistance a b) := by
  unfold editDistance
  split
  · exact (isDistance_distanceAlong b.toList a.toList).symm
  · exact isDistance_distanceAlong a.toList b.toList

theorem editDistance_eq_zero_iff {a b : String} : editDistance a b = 0 ↔ a = b := by
  have h := isDistance_editDistance a b
  constructor
  · intro hzero
    rw [hzero] at h
    exact String.toList_inj.mp (Edits.zero_iff.mp h.1)
  · intro heq
    subst heq
    exact Nat.le_zero.mp (h.2 (Edits.none a.toList))

/-- The edit distance is the least number of edits that turn one text into the other. It is thus a
metric: it vanishes between equal texts only, is the same in both directions, and no detour is
shorter. -/
theorem editDistance_least (a b : String) :
    IsLeast {n | Edits n a.toList b.toList} (editDistance a b) ∧
    (editDistance a b = 0 ↔ a = b) ∧
    editDistance a b = editDistance b a ∧
    ∀ c, editDistance a c ≤ editDistance a b + editDistance b c := by
  have hab := isDistance_editDistance a b
  refine ⟨hab, editDistance_eq_zero_iff, ?_, fun c => ?_⟩
  · exact hab.symm.unique (isDistance_editDistance b a)
  · exact (isDistance_editDistance a c).2 (hab.1.trans (isDistance_editDistance b c).1)

example : editDistance "kitten" "sitting" = 3 := by decide +kernel

end Conditions.Text
