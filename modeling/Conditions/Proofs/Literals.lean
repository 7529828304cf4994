import Conditions.Lexing.Literal

/-!
# The shapes of literals

The texts that are number and string literals, written down apart from how they are read. Reading a
number takes the longest number at the front of a text, and reading a string stops at the first
quote that closes it.
-/

namespace Conditions

/-- The text is at its end, or goes on with a character that does not have the property. -/
def StopsAt (p : Char → Bool) (rest : List Char) : Prop :=
  ∀ c, rest.head? = some c → p c = false

section
variable {p : Char → Bool} {w v x rest : List Char}

theorem stopsAt_nil : StopsAt p [] := by
  intro c hc
  cases hc

theorem stopsAt_cons {c : Char} (hc : p c = false) : StopsAt p (c :: rest) := by
  intro d hd
  cases hd
  exact hc

theorem stopsAt_dropWhile (cs : List Char) : StopsAt p (cs.dropWhile p) := by
  intro c hc
  have := List.head?_dropWhile_not p cs
  rw [hc] at this
  exact this

theorem takeWhile_append_of_stopsAt (hw : ∀ c ∈ w, p c) (hrest : StopsAt p rest) :
    (w ++ rest).takeWhile p = w := by
  rw [List.takeWhile_append_of_pos hw]
  cases rest with
  | nil => simp
  | cons c rest => simp [hrest c rfl]

theorem dropWhile_append_of_stopsAt (hw : ∀ c ∈ w, p c) (hrest : StopsAt p rest) :
    (w ++ rest).dropWhile p = rest := by
  rw [List.dropWhile_append_of_pos hw]
  cases rest with
  | nil => rfl
  | cons c rest => simp [hrest c rfl]

/-- Where a text stops, no run of the property goes further. -/
theorem length_le_of_stopsAt (hv : ∀ c ∈ v, p c) (hrest : StopsAt p rest)
    (h : w ++ rest = v ++ x) : v.length ≤ w.length := by
  refine Nat.le_of_not_lt fun hlt => ?_
  obtain ⟨u, rfl⟩ : w <+: v :=
    List.prefix_of_prefix_length_le ⟨rest, h⟩ ⟨x, rfl⟩ (Nat.le_of_lt hlt)
  cases u with
  | nil => simp at hlt
  | cons c u =>
    rw [List.append_assoc, List.append_cancel_left_eq] at h
    have hc : p c = true := hv c (by simp)
    rw [hrest c (by rw [h]; rfl)] at hc
    cases hc

end

/-- The text has the shape, and what it is followed by does not make a longer one. -/
def Longest (Shape : List Char → Prop) (w rest : List Char) : Prop :=
  Shape w ∧ ∀ v x, w ++ rest = v ++ x → Shape v → v.length ≤ w.length

namespace Numeral

/-- The parts of a literal are digits, of which at least one stands before the point. -/
def WellFormed (n : Numeral) : Prop :=
  n.whole ≠ [] ∧ (∀ c ∈ n.whole, c.isDigit) ∧
    ∀ digits, n.fraction? = some digits → ∀ c ∈ digits, c.isDigit

/-- The literal goes on no further in front of the text. -/
def EndsBefore (n : Numeral) (rest : List Char) : Prop :=
  StopsAt Char.isDigit rest ∧ (n.fraction? = none → rest.head? ≠ some '.')

/-- The text of the fraction, with its point. -/
def fractionText (n : Numeral) : List Char :=
  n.fraction?.elim [] ('.' :: ·)

theorem written_eq (n : Numeral) :
    n.written = (if n.negative then ['-'] else []) ++ n.whole ++ n.fractionText := by
  cases h : n.fraction? <;> simp [written, fractionText, h]

variable {n : Numeral} {rest : List Char}

/-- The digits before the point stop there, or where the literal ends. -/
theorem stopsAt_fractionText (hrest : n.fraction? = none → StopsAt Char.isDigit rest) :
    StopsAt Char.isDigit (n.fractionText ++ rest) := by
  unfold fractionText
  cases h : n.fraction? with
  | none => exact hrest h
  | some digits =>
    intro c heq
    cases heq
    rfl

theorem readDigits?_written (hn : n.WellFormed) (hrest : n.EndsBefore rest) :
    readDigits? n.negative (n.whole ++ (n.fractionText ++ rest)) = some (n, rest) := by
  obtain ⟨negative, whole, fraction?⟩ := n
  obtain ⟨hne, hwhole, hfraction⟩ := hn
  have hstops : StopsAt Char.isDigit (fractionText ⟨negative, whole, fraction?⟩ ++ rest) :=
    stopsAt_fractionText fun _ => hrest.1
  unfold readDigits?
  rw [takeWhile_append_of_stopsAt hwhole hstops, dropWhile_append_of_stopsAt hwhole hstops]
  cases whole with
  | nil => exact absurd rfl hne
  | cons d whole =>
    cases fraction? with
    | none =>
      cases rest with
      | nil => rfl
      | cons c rest =>
        have hc : c ≠ '.' := fun h => hrest.2 rfl (by rw [h]; rfl)
        simp only [fractionText, Option.elim_none, List.nil_append]
        split
        · next h => exact absurd (List.cons.inj h).1 hc
        · rfl
    | some digits =>
      have hdigits := hfraction digits rfl
      simp only [fractionText, Option.elim_some, List.cons_append,
        takeWhile_append_of_stopsAt hdigits hrest.1, dropWhile_append_of_stopsAt hdigits hrest.1]

/-- A literal is read back as it was written, if it goes on no further. -/
theorem read?_written (hn : n.WellFormed) (hrest : n.EndsBefore rest) :
    read? (n.written ++ rest) = some (n, rest) := by
  have hdigits := readDigits?_written hn hrest
  rw [written_eq, List.append_assoc, List.append_assoc]
  cases hneg : n.negative with
  | true =>
    rw [hneg] at hdigits
    exact hdigits
  | false =>
    rw [hneg] at hdigits
    obtain ⟨d, ds, hwhole⟩ := List.exists_cons_of_ne_nil hn.1
    have hd : d ≠ '-' := by
      intro heq
      subst heq
      have := hn.2.1 '-' (by simp [hwhole])
      exact absurd this (by decide)
    rw [hwhole] at hdigits ⊢
    simp only [Bool.false_eq_true, if_false, List.nil_append, List.cons_append] at hdigits ⊢
    rw [read?]
    · exact hdigits
    · intro cs h
      exact hd (List.cons.inj h).1

theorem wellFormed_of_readDigits? {negative : Bool} {cs : List Char}
    (h : readDigits? negative cs = some (n, rest)) : n.WellFormed ∧ n.EndsBefore rest := by
  have hwhole : ∀ c ∈ cs.takeWhile Char.isDigit, c.isDigit = true :=
    List.all_eq_true.1 List.all_takeWhile
  have hstops : StopsAt Char.isDigit (cs.dropWhile Char.isDigit) := stopsAt_dropWhile cs
  unfold readDigits? at h
  split at h
  · cases h
  · next whole hne =>
    split at h
    · next tail hdrop =>
      simp only [Option.some.injEq, Prod.mk.injEq] at h
      obtain ⟨rfl, rfl⟩ := h
      refine ⟨⟨hne, hwhole, ?_⟩, stopsAt_dropWhile tail, fun h => by cases h⟩
      intro digits heq c hc
      cases heq
      exact List.all_eq_true.1 List.all_takeWhile c hc
    · next hpoint =>
      simp only [Option.some.injEq, Prod.mk.injEq] at h
      obtain ⟨rfl, rfl⟩ := h
      refine ⟨⟨hne, hwhole, fun _ h => by cases h⟩, hstops, fun _ hhead => ?_⟩
      obtain ⟨tail, htail⟩ := List.head?_eq_some_iff.1 hhead
      exact hpoint tail htail

theorem wellFormed_of_read? {cs : List Char} (h : read? cs = some (n, rest)) :
    n.WellFormed ∧ n.EndsBefore rest := by
  unfold read? at h
  split at h
  · exact wellFormed_of_readDigits? h
  · exact wellFormed_of_readDigits? h

theorem readDigits?_ne_none {negative : Bool} {d : Char} {cs : List Char} (hd : d.isDigit) :
    readDigits? negative (d :: cs) ≠ none := by
  unfold readDigits?
  rw [List.takeWhile_cons, if_pos hd]
  dsimp only
  split <;> simp

/-- Something is read wherever a literal begins. -/
theorem read?_ne_none (hn : n.WellFormed) : read? (n.written ++ rest) ≠ none := by
  obtain ⟨d, ds, hwhole⟩ := List.exists_cons_of_ne_nil hn.1
  have hd : d.isDigit := hn.2.1 d (by simp [hwhole])
  rw [written_eq, hwhole]
  cases n.negative with
  | true => exact readDigits?_ne_none hd
  | false =>
    simp only [Bool.false_eq_true, if_false, List.nil_append, List.cons_append]
    rw [read?]
    · exact readDigits?_ne_none hd
    · intro cs h
      rw [(List.cons.inj h).1] at hd
      exact absurd hd (by decide)

/-- The sign of a literal is told from its first character. -/
theorem sign_eq {m : Numeral} {x : List Char} (hn : n.WellFormed) (hm : m.WellFormed)
    (h : n.written ++ rest = m.written ++ x) :
    n.negative = m.negative ∧
      n.whole ++ (n.fractionText ++ rest) = m.whole ++ (m.fractionText ++ x) := by
  have hminus : ∀ {k : Numeral}, k.WellFormed → ∀ {y z : List Char}, '-' :: y ≠ k.whole ++ z := by
    intro k hk y z heq
    obtain ⟨d, ds, hd⟩ := List.exists_cons_of_ne_nil hk.1
    have hdigit := hk.2.1 d (by simp [hd])
    rw [hd, List.cons_append] at heq
    rw [← (List.cons.inj heq).1] at hdigit
    exact absurd hdigit (by decide)
  rw [written_eq, written_eq] at h
  cases hneg : n.negative <;> cases hneg' : m.negative <;>
    simp only [hneg, hneg', if_true, Bool.false_eq_true, if_false, List.nil_append,
      List.append_assoc, List.cons_append, List.cons.injEq, true_and] at h
  · exact ⟨rfl, h⟩
  · exact absurd h.symm (hminus hn)
  · exact absurd h (hminus hm)
  · exact ⟨rfl, h⟩

/-- The digits before the point are as many as there are, so a literal ends where it can. -/
theorem length_written_le {m : Numeral} {x : List Char} (hn : n.WellFormed)
    (hrest : n.EndsBefore rest) (hm : m.WellFormed) (h : n.written ++ rest = m.written ++ x) :
    m.written.length ≤ n.written.length := by
  obtain ⟨hsign, h⟩ := sign_eq hn hm h
  have hle : m.whole.length ≤ n.whole.length :=
    length_le_of_stopsAt hm.2.1 (stopsAt_fractionText fun _ => hrest.1) h
  have hfraction : n.whole.length = m.whole.length →
      m.fractionText.length ≤ n.fractionText.length := by
    intro heq
    obtain ⟨-, h⟩ := List.append_inj h heq
    cases hm' : m.fraction? with
    | none => simp [fractionText, hm']
    | some digits =>
      rw [fractionText, fractionText, hm'] at h ⊢
      cases hn' : n.fraction? with
      | none =>
        rw [hn'] at h
        exact absurd (congrArg List.head? h) (hrest.2 hn')
      | some digits' =>
        rw [hn'] at h
        have := length_le_of_stopsAt (hm.2.2 _ hm') hrest.1 (List.cons.inj h).2
        simp only [Option.elim_some, List.length_cons]
        omega
  have hwhole : m.fractionText ≠ [] → n.whole.length = m.whole.length := by
    intro hne
    have hstops : StopsAt Char.isDigit (m.fractionText ++ x) :=
      stopsAt_fractionText fun hnone => absurd (by simp [fractionText, hnone]) hne
    exact Nat.le_antisymm (length_le_of_stopsAt hn.2.1 hstops h.symm) hle
  simp only [written_eq, List.length_append, hsign]
  by_cases hne : m.fractionText = []
  · rw [hne, List.length_nil]
    omega
  · have := hfraction (hwhole hne)
    omega

end Numeral

/-- The texts of number literals: digits, perhaps behind a sign, and perhaps with a point behind
which there may be more digits. -/
def IsNumberText (w : List Char) : Prop :=
  ∃ n : Numeral, n.WellFormed ∧ n.written = w

theorem longest_written {n : Numeral} {rest : List Char} (hn : n.WellFormed)
    (hrest : n.EndsBefore rest) : Longest IsNumberText n.written rest := by
  refine ⟨⟨n, hn, rfl⟩, ?_⟩
  intro v x h hv
  rcases hv with ⟨m, hm, rfl⟩
  exact Numeral.length_written_le hn hrest hm h

/-- Where nothing is read, no number begins. -/
theorem not_isNumberText_of_read? {v x : List Char} (h : Numeral.read? (v ++ x) = none) :
    ¬ IsNumberText v := by
  intro h
  rcases h with ⟨n, hn, rfl⟩
  exact Numeral.read?_ne_none hn h

/-! ## Strings -/

/-- The bodies of string literals with the texts they stand for: characters other than the quote and
the backslash, and backslashes with a character behind each. -/
inductive StringText : List Char → List Char → Prop where
  | nil : StringText [] []
  | plain {c : Char} {w meant : List Char} : c ≠ quoteMark → c ≠ '\\' → StringText w meant →
      StringText (c :: w) (c :: meant)
  | escape {c : Char} {w meant : List Char} : StringText w meant →
      StringText ('\\' :: c :: w) (unescape c :: meant)

/-- No quote in the text closes the literal whose body it begins. -/
def Unclosed (cs : List Char) : Prop :=
  ∀ w meant rest, StringText w meant → cs ≠ w ++ quoteMark :: rest

namespace StringBody

theorem read?_plain {c : Char} {cs : List Char} (hq : c ≠ quoteMark) (hb : c ≠ '\\') :
    read? (c :: cs) = (read? cs).map (extend [c] c) := by
  rw [read?]
  · exact hq
  · intro d ds h
    exact absurd h hb

/-- A body is read up to the quote behind it. -/
theorem read?_stringText {w meant rest : List Char} (h : StringText w meant) :
    read? (w ++ quoteMark :: rest) = some ⟨w, meant, rest⟩ := by
  induction h with
  | nil => rfl
  | plain hq hb _ ih => rw [List.cons_append, read?_plain hq hb, ih]; rfl
  | escape _ ih => rw [List.cons_append, List.cons_append, read?, ih]; rfl

theorem stringText_of_read? {cs : List Char} {b : StringBody} (h : read? cs = some b) :
    StringText b.written b.meant := by
  induction cs using read?.induct generalizing b with
  | case1 => cases h
  | case2 cs =>
    cases h
    exact .nil
  | case3 c cs ih =>
    obtain ⟨b, hb, rfl⟩ := Option.map_eq_some_iff.1 h
    exact .escape (ih hb)
  | case4 c cs hquote hescape ih =>
    by_cases hb : c = '\\'
    · subst hb
      cases cs with
      | nil => cases h
      | cons d ds => exact absurd rfl (hescape d ds rfl)
    · rw [read?_plain hquote hb] at h
      obtain ⟨b, hb', rfl⟩ := Option.map_eq_some_iff.1 h
      exact .plain hquote hb (ih hb')

theorem read?_eq_none_iff {cs : List Char} : read? cs = none ↔ Unclosed cs := by
  constructor
  · intro h w meant rest hw heq
    subst heq
    rw [read?_stringText hw] at h
    cases h
  · intro h
    cases hr : read? cs with
    | none => rfl
    | some b => exact absurd (written_append_of_read? hr).symm (h _ _ _ (stringText_of_read? hr))

end StringBody

end Conditions
