import Conditions.Lexing.Scanner
import Conditions.Proofs.EditDistance
import Conditions.Proofs.Tiling

/-!
# The nearest keywords

What is suggested for a word are the keywords nearest to it, in the order of their edit distance
and, at one distance, in the order of the table. Sorting keeps the order of what is at one distance,
and the suggestions are the front of the sorted list. A word that is reported as unknown differs
from every keyword, so all keywords suggested for it are one or two edits away.
-/

namespace Conditions

/-- The spellings of the keywords, in the order of the table. -/
def keywordSpellings : List String :=
  keywords.map Prod.fst

/-- The keyword `k` is nearer to the text than `l`: its edit distance is smaller, or it is the same
and `k` comes first in the table. -/
def Nearer (text k l : String) : Prop :=
  Text.editDistance text k < Text.editDistance text l ∨
  Text.editDistance text k = Text.editDistance text l ∧
    keywordSpellings.idxOf k < keywordSpellings.idxOf l

/-- The suggestions are the three keywords nearest to the text, or all those within two edits if
there are fewer. -/
structure NearestKeywords (text : String) (suggested : List String) : Prop where
  distinct : suggested.Nodup
  keyword : ∀ k ∈ suggested, k ∈ keywordSpellings
  reach : ∀ k ∈ suggested, Text.editDistance text k ≤ 2
  ordered : suggested.Pairwise (Nearer text)
  length : suggested.length =
    min 3 (keywordSpellings.countP (fun k => Text.editDistance text k ≤ 2))
  omitted : ∀ k ∈ keywordSpellings, k ∉ suggested →
    2 < Text.editDistance text k ∨ ∀ l ∈ suggested, Nearer text l k

/-! ## Stable sorting -/

section
variable {α : Type} (f : α → Nat)

theorem key_le_trans (a b c : α) :
    decide (f a ≤ f b) → decide (f b ≤ f c) → decide (f a ≤ f c) := by
  simp only [decide_eq_true_eq]
  exact Nat.le_trans

theorem key_le_total (a b : α) : decide (f a ≤ f b) || decide (f b ≤ f a) := by
  simp only [Bool.or_eq_true, decide_eq_true_eq]
  exact Nat.le_total _ _

/-- Sorting by a key leaves what has the same key as it is. -/
theorem filter_mergeSort (xs : List α) (n : Nat) :
    (xs.mergeSort (fun a b => f a ≤ f b)).filter (fun a => f a = n) =
      xs.filter (fun a => f a = n) := by
  have htied : (xs.filter (fun a => f a = n)).Pairwise (fun a b => decide (f a ≤ f b)) := by
    apply List.pairwise_of_forall_mem_list
    intro a ha b hb
    rw [of_decide_eq_true (List.mem_filter.mp ha).2, of_decide_eq_true (List.mem_filter.mp hb).2]
    exact decide_eq_true (Nat.le_refl n)
  have hsub := List.sublist_mergeSort (key_le_trans f) (key_le_total f) htied List.filter_sublist
  have hsub := hsub.filter (fun a => decide (f a = n))
  simp only [List.filter_filter, Bool.and_self] at hsub
  exact (hsub.eq_of_length ((List.mergeSort_perm xs _).filter _).length_eq.symm).symm

/-- Sorting by a key puts a list in the order of the keys, and where keys are the same it keeps the
order that there was. -/
theorem pairwise_mergeSort_stable {R : α → α → Prop} {xs : List α} (h : xs.Pairwise R) :
    (xs.mergeSort (fun a b => f a ≤ f b)).Pairwise
      (fun a b => f a < f b ∨ f a = f b ∧ R a b) := by
  have hsorted := List.pairwise_mergeSort (key_le_trans f) (key_le_total f) xs
  rw [List.pairwise_iff_forall_sublist] at hsorted h ⊢
  intro a b hab
  rcases Nat.lt_or_eq_of_le (of_decide_eq_true (hsorted hab)) with hlt | heq
  · exact .inl hlt
  · refine .inr ⟨heq, h ?_⟩
    have htied := hab.filter (fun a => decide (f a = f b))
    rw [filter_mergeSort, List.filter_eq_self.mpr (by simp [heq])] at htied
    exact htied.trans List.filter_sublist

end

/-! ## Suggestions for a word -/

section
variable {text k l : String}

/-- No keyword is nearer than itself. -/
theorem Nearer.ne (h : Nearer text k l) : k ≠ l := by
  intro heq
  subst heq
  rcases h with hlt | ⟨-, hlt⟩
  · exact Nat.lt_irrefl _ hlt
  · exact Nat.lt_irrefl _ hlt

/-- All keywords within reach of the text, the nearest first. -/
def keywordsInReach (text : String) : List String :=
  (keywordSpellings.filter (fun k => Text.editDistance text k ≤ 2)).mergeSort
    (fun k l => Text.editDistance text k ≤ Text.editDistance text l)

theorem suggestKeywords_eq_take (word : String) :
    suggestKeywords word = (keywordsInReach (Text.upper word)).take 3 := rfl

theorem mem_keywordsInReach :
    k ∈ keywordsInReach text ↔ k ∈ keywordSpellings ∧ Text.editDistance text k ≤ 2 := by
  rw [keywordsInReach, List.mem_mergeSort, List.mem_filter, decide_eq_true_eq]

theorem pairwise_keywordsInReach (text : String) :
    (keywordsInReach text).Pairwise (Nearer text) := by
  have htable : keywordSpellings.Pairwise
      (fun k l => keywordSpellings.idxOf k < keywordSpellings.idxOf l) := by decide
  exact pairwise_mergeSort_stable (Text.editDistance text) (htable.sublist List.filter_sublist)

theorem length_keywordsInReach (text : String) : (keywordsInReach text).length =
    keywordSpellings.countP (fun k => Text.editDistance text k ≤ 2) := by
  rw [keywordsInReach, List.length_mergeSort, List.countP_eq_length_filter]

theorem nearestKeywords_suggestKeywords (word : String) :
    NearestKeywords (Text.upper word) (suggestKeywords word) := by
  rw [suggestKeywords_eq_take]
  generalize Text.upper word = text
  have hordered := pairwise_keywordsInReach text
  rw [← List.take_append_drop 3 (keywordsInReach text)] at hordered
  obtain ⟨hfront, -, hbehind⟩ := List.pairwise_append.mp hordered
  refine ⟨hfront.imp Nearer.ne, ?_, ?_, hfront, ?_, ?_⟩
  · intro k hk
    exact (mem_keywordsInReach.mp (List.mem_of_mem_take hk)).1
  · intro k hk
    exact (mem_keywordsInReach.mp (List.mem_of_mem_take hk)).2
  · rw [List.length_take, length_keywordsInReach]
  · intro k hk hout
    by_cases hreach : Text.editDistance text k ≤ 2
    · have hmem := mem_keywordsInReach.mpr ⟨hk, hreach⟩
      rw [← List.take_append_drop 3 (keywordsInReach text)] at hmem
      have hdrop := (List.mem_append.mp hmem).resolve_left hout
      exact .inr fun l hl => hbehind l hl k hdrop
    · exact .inl (Nat.lt_of_not_le hreach)

/-- A keyword that is suggested for a text other than any keyword is one edit or two away. -/
theorem NearestKeywords.one_or_two {suggested : List String} (h : NearestKeywords text suggested)
    (htext : text ∉ keywordSpellings) (hk : k ∈ suggested) :
    Text.editDistance text k = 1 ∨ Text.editDistance text k = 2 := by
  have hne : Text.editDistance text k ≠ 0 := by
    intro hzero
    rw [Text.editDistance_eq_zero_iff.mp hzero] at htext
    exact htext (h.keyword k hk)
  have hle := h.reach k hk
  omega

end

/-! ## Words that are reported -/

theorem Piece.location_of_tile? {filename : String} {p : Position} {piece : Piece}
    {e : LexicalError} {span : List Char} (h : piece.tile? filename p = some (.error e span)) :
    e.location = p.locate filename := by
  cases piece with
  | blank c => cases h
  | comment text => cases h
  | lexeme reading text =>
    cases reading with
    | token kind payload => cases h
    | fault fault =>
      cases h
      rfl
    | oversized e => cases h

theorem Tile.StandsAt.isSpan {e : LexicalError} {span rest : List Char} {offset : Int}
    (h : (Tile.error e span).StandsAt offset rest) : IsSpan e.fault span rest := by
  cases h with
  | error hspan => exact hspan

/-- Every error is at a part of the text that is at fault. -/
theorem Lexing.exists_isSpan (filename : String) {ps : List Piece} {text rest : List Char}
    (h : Tiles ps text rest) : ∀ p : Position, ∀ e ∈ (ofPieces filename p ps).errors,
      ∃ before span after, text = before ++ (span ++ after) ∧
        e.location = (p.after before).locate filename ∧ IsSpan e.fault span after := by
  induction h with
  | nil => exact fun _ => List.forall_mem_nil _
  | @cons piece ps text rest hfits _ ih =>
    intro p e he
    cases htile : piece.tile? filename p with
    | none =>
      obtain ⟨e, hpiece, -⟩ := Piece.oversized_of_tile?_eq_none hfits htile
      rw [hpiece] at he
      cases he
    | some tile =>
      rw [Piece.ofPieces_of_tile? htile] at he
      rcases List.mem_append.mp he with he | he
      · cases tile with
        | error e' span =>
          cases List.mem_singleton.mp he
          obtain rfl : span = piece.text := Piece.text_of_tile? htile
          exact ⟨[], piece.text, text, rfl, Piece.location_of_tile? htile,
            (Piece.standsAt_of_fits hfits htile).isSpan⟩
        | _ => cases he
      · obtain ⟨before, span, after, rfl, hlocation, hspan⟩ := ih _ e he
        refine ⟨piece.text ++ before, span, after, ?_, ?_, hspan⟩
        · rw [List.append_assoc]
        · rw [hlocation, Position.after_append]

/-- Faults with the code of unknown words are unknown words. -/
theorem Fault.exists_unknownWord {fault : Fault} (h : fault.code = "L005") :
    ∃ word, fault = .unknownWord word := by
  cases fault with
  | unknownWord word => exact ⟨word, rfl⟩
  | _ => simp [code] at h

theorem not_mem_keywordSpellings {text : String} (h : keywords.lookup text = none) :
    text ∉ keywordSpellings := by
  intro hmem
  obtain ⟨entry, hentry, rfl⟩ := List.mem_map.mp hmem
  exact absurd rfl (bne_iff_ne.mp (List.lookup_eq_none_iff.mp h entry hentry))

/-- What is suggested for a word are the keywords nearest to its upper case. An error for an unknown
word that is found when a scanner lexes its source, whatever the scanner has done before, is at that
word in the source and makes these suggestions; each of the keywords is one edit or two away. -/
theorem suggestKeywords_nearest :
    (∀ word, NearestKeywords (Text.upper word) (suggestKeywords word)) ∧
    ∀ s : Scanner, ∀ e ∈ s.lexAll.1.errors, e.diagnostic.code = some "L005" →
      ∃ before w after, s.source = before ++ (w ++ after) ∧ Longest IsWordText w after ∧
        e.location = (Position.start.after before).locate s.filename ∧
        let word := String.ofList w
        e.fault = .unknownWord word ∧
        e.diagnostic.suggestions =
          some ((suggestKeywords word).map (fun k => s!"Did you mean '{k}'?")) ∧
        ∀ k ∈ suggestKeywords word, Text.editDistance (Text.upper word) k = 1 ∨
          Text.editDistance (Text.upper word) k = 2 := by
  refine ⟨nearestKeywords_suggestKeywords, fun s e he hcode => ?_⟩
  obtain ⟨before, w, after, hsource, hlocation, hspan⟩ :=
    Lexing.exists_isSpan s.filename (tiles_pieces s.source) .start e he
  obtain ⟨word, hfault⟩ := Fault.exists_unknownWord (Option.some.inj hcode)
  obtain ⟨fault, location⟩ := e
  cases hfault
  cases hspan with
  | unknownWord hlongest hlookup =>
    refine ⟨before, w, after, hsource, hlongest, hlocation, rfl, rfl, fun k hk => ?_⟩
    exact (nearestKeywords_suggestKeywords _).one_or_two (not_mem_keywordSpellings hlookup) hk

theorem suggestKeywords_nearest_tied :
    let s := Scanner.ofSource "(ax 1" "f"
    let e : LexicalError := ⟨.unknownWord "ax", ⟨⟨1, 1, 2⟩, "f"⟩⟩
    let nearest := ["VAR", "AND", "OR"]
    Text.upper "ax" = "AX" ∧ NearestKeywords "AX" nearest ∧ Text.editDistance "AX" "_" = 2 ∧
    e ∈ s.lexAll.1.errors ∧ e.diagnostic.code = some "L005" ∧
    e.diagnostic.suggestions = some (nearest.map (fun k => s!"Did you mean '{k}'?")) ∧
    ∀ k ∈ nearest, Text.editDistance "AX" k = 1 ∨ Text.editDistance "AX" k = 2 := by
  intro s e nearest
  have hupper : Text.upper "ax" = "AX" := by decide +kernel
  have hreach : keywordSpellings.filter (fun k => Text.editDistance "AX" k ≤ 2) =
      ["VAR", "AND", "OR", "_"] := by decide +kernel
  have hnearest : suggestKeywords "ax" = nearest := by
    rw [suggestKeywords_eq_take, hupper, keywordsInReach, hreach,
      List.mergeSort_of_pairwise (by decide +kernel)]
    rfl
  have he : e ∈ s.lexAll.1.errors := by decide +kernel
  obtain ⟨hword, herror⟩ := suggestKeywords_nearest
  have hword := hword "ax"
  obtain ⟨before, w, after, -, -, -, hfault, hsuggestions, hdistance⟩ := herror s e he rfl
  rw [← Fault.unknownWord.inj hfault, hnearest] at hsuggestions hdistance
  rw [hupper, hnearest] at hword
  rw [hupper] at hdistance
  exact ⟨hupper, hword, by decide +kernel, he, rfl, hsuggestions, hdistance⟩

end Conditions
