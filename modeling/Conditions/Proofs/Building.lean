import Conditions.Proofs.Describing
import Conditions.Proofs.Recognition
import Conditions.Reading

/-!
# From derivations to nodes

Tokens whose literals carry values of the right type derive only trees that stand for nodes. Reading
such tokens as a whole therefore ends in a node or in a parse error, as the grammar has it, unless
the token at fault cannot be shown.
-/

namespace Conditions

/-- A number token carries a number, and a string token carries a text. -/
structure Token.WellTyped (t : Token) : Prop where
  number : t.kind = .number → ∃ x, t.payload = .number x
  string : t.kind = .string → ∃ s, t.payload = .text s

/-- The tree stands for something of the type that the production is for. -/
def Production.Builds (production : Production) (tree : Tree) : Prop :=
  match production with
  | number => ∃ x, tree = .number x
  | string => ∃ s, tree = .text s
  | valueSet => ∃ values, tree.toValueSet = .ok values
  | newState => ∃ node, tree.toNewState = .ok node
  | variableRef => ∃ name, tree.toVariable = .ok name
  | equality | compound | condition => ∃ c, tree.toCondition = .ok c
  | leftParen | rightParen | connective => True

theorem Tree.toConditions_eq_mapM (trees : List Tree) :
    Tree.toConditions trees = trees.mapM Tree.toCondition := by
  induction trees with
  | nil => rfl
  | cons tree trees ih => rw [toConditions, ih, List.mapM_cons]

theorem mem_flatten_words {parts : List (List Token × Tree)} {part : List Token × Tree} {t : Token}
    (hpart : part ∈ parts) (ht : t ∈ part.1) : t ∈ (parts.map Prod.fst).flatten :=
  List.mem_flatten_of_mem (List.mem_map_of_mem hpart) ht

/-- Trees that are derived from well-typed tokens stand for something. -/
theorem Derives.builds {production : Production} {w : List Token} {tree : Tree}
    (h : Derives production w tree) : (∀ t ∈ w, t.WellTyped) → production.Builds tree := by
  induction h with
  | @number t hkind =>
    intro hw
    exact (hw t (List.mem_singleton.2 rfl)).number hkind
  | @string t hkind =>
    intro hw
    exact (hw t (List.mem_singleton.2 rfl)).string hkind
  | leftParen _ | rightParen _ | connective _ =>
    intro _
    trivial
  | @wildcard t hkind =>
    intro _
    exact ⟨.wildcard, by rw [Tree.toNewState, if_pos hkind]⟩
  | stateNumber _ ih =>
    intro hw
    obtain ⟨x, rfl⟩ := ih hw
    exact ⟨.number x, rfl⟩
  | @valueSet l r parts _ _ _ ih =>
    intro hw
    refine exists_mapM_ok_iff.2 fun tree htree => ?_
    obtain ⟨part, hpart, rfl⟩ := List.mem_map.1 htree
    obtain ⟨x, hx⟩ := ih part hpart fun t ht => hw t (by simp [mem_flatten_words hpart ht])
    exact ⟨x, by rw [hx]; rfl⟩
  | variableRef _ hk _ _ ih =>
    intro hw
    obtain ⟨name, rfl⟩ := ih fun t ht => hw t (by simp [ht])
    exact ⟨name, by rw [Tree.toVariable, if_pos hk]⟩
  | @equality l k r v w subject value _ hk _ _ _ ih ih' =>
    intro hw
    obtain ⟨name, hname⟩ := ih fun t ht => hw t (by simp [ht])
    obtain ⟨x, rfl⟩ := ih' fun t ht => hw t (by simp [ht])
    refine ⟨.equality name x, ?_⟩
    simp only [Tree.toCondition, hk, hname]
    rfl
  | @compound l k r parts _ hk _ _ ih =>
    intro hw
    obtain ⟨cs, hcs⟩ : ∃ cs, Tree.toConditions (parts.map Prod.snd) = .ok cs := by
      rw [Tree.toConditions_eq_mapM]
      refine exists_mapM_ok_iff.2 fun tree htree => ?_
      obtain ⟨part, hpart, rfl⟩ := List.mem_map.1 htree
      exact ih part hpart fun t ht => hw t (by simp [mem_flatten_words hpart ht])
    rcases hk with hk | hk
    · refine ⟨.compound .and cs, ?_⟩
      simp only [Tree.toCondition, hk, hcs]
      rfl
    · refine ⟨.compound .or cs, ?_⟩
      simp only [Tree.toCondition, hk, hcs]
      rfl
  | ofEquality _ ih =>
    intro hw
    exact ih hw
  | ofCompound _ ih =>
    intro hw
    exact ih hw

theorem Goal.build_of_builds {goal : Goal} {tree : Tree} (h : goal.production.Builds tree) :
    ∃ node, goal.build tree = .ok node := by
  cases goal with
  | condition =>
    obtain ⟨c, hc⟩ := h
    exact ⟨.condition c, by rw [build, hc]; rfl⟩
  | variableRef =>
    obtain ⟨name, hname⟩ := h
    exact ⟨.variableRef name, by rw [build, hname]; rfl⟩
  | valueSet =>
    obtain ⟨values, hvalues⟩ := h
    exact ⟨.valueSet values, by rw [build, hvalues]; rfl⟩
  | newState => exact h

/-! ## Reading tokens as a whole -/

section
variable {goal : Goal} {tokens : Array Token}

theorem derivesAt_whole_iff {production : Production} {tree : Tree} :
    DerivesAt production tokens 0 tokens.size tree ↔ Derives production tokens.toList tree := by
  have hslice : slice tokens 0 tokens.size = tokens.toList := by
    rw [slice, Int.toNat_natCast, Int.toNat_zero, Array.extract_size]
  rw [DerivesAt, hslice]
  exact ⟨fun h => h.2.2.2, fun h => ⟨Int.le_refl 0, by omega, Int.le_refl _, h⟩⟩

theorem tokenAt?_eq_none_iff {j : Int} (hj : 0 ≤ j) :
    tokenAt? tokens j = none ↔ tokens.size ≤ j := by
  rw [tokenAt?, if_neg (by omega), Array.getElem?_eq_none_iff]
  omega

theorem mem_of_tokenAt? {t : Token} {j : Int} (h : tokenAt? tokens j = some t) : t ∈ tokens := by
  unfold tokenAt? at h
  split at h
  · cases h
  · exact Array.mem_of_getElem? h

/-- Tokens that are a word of the production are read as the node of its tree. -/
theorem read_of_derives {tree : Tree} (h : Derives goal.production tokens.toList tree) :
    read goal tokens = (goal.build tree).mapError .build := by
  have houtcome := Production.outcome?_eq_matched_iff.2 (derivesAt_whole_iff.2 h)
  have hend : tokenAt? tokens tokens.size = none :=
    (tokenAt?_eq_none_iff (by omega)).2 (Int.le_refl _)
  simp only [read, houtcome, hend]

theorem ParseError.exists_noMatch_iff {first? : Option Token} {title : String} :
    (∃ e, noMatch title first? = .ok e) ↔ ∀ t, first? = some t → t.Showable := by
  cases first? with
  | none => simp [noMatch]
  | some first =>
    simp only [Option.some.injEq, forall_eq']
    exact exists_bind_pure_iff.trans Token.exists_text_iff

theorem ParseError.exists_trailing_iff {extra : Token} {title : String} {index : Int} :
    (∃ e, trailing title extra index = .ok e) ↔ extra.Showable :=
  exists_bind_pure_iff.trans Token.exists_text_iff

/-- Tokens that are no word of the production are refused with a parse error, if they can be
shown. -/
theorem read_of_not_derives (h : ∀ tree, ¬ Derives goal.production tokens.toList tree)
    (hshowable : ∀ t ∈ tokens, t.Showable) : ∃ e, read goal tokens = .error (.parse e) := by
  unfold read
  rcases Production.outcome?_eq_matched_or_failed goal.production tokens 0 with
    ⟨tree, j, hmatched⟩ | hfailed
  · have hderives := Production.outcome?_eq_matched_iff.1 hmatched
    cases hextra : tokenAt? tokens j with
    | some extra =>
      have hmem : extra ∈ tokens := mem_of_tokenAt? hextra
      obtain ⟨e, he⟩ : ∃ e, ParseError.trailing goal.title extra j = .ok e :=
        ParseError.exists_trailing_iff.2 (hshowable extra hmem)
      exact ⟨e, by simp only [hmatched, hextra, he, ReadError.ofParse]⟩
    | none =>
      have hle := (tokenAt?_eq_none_iff hderives.2.1).1 hextra
      obtain rfl : j = tokens.size := Int.le_antisymm hderives.2.2.1 hle
      exact absurd (derivesAt_whole_iff.1 hderives) (h tree)
  · obtain ⟨e, he⟩ : ∃ e, ParseError.noMatch goal.title tokens[0]? = .ok e :=
      ParseError.exists_noMatch_iff.2 fun t ht => hshowable t (Array.mem_of_getElem? ht)
    exact ⟨e, by simp only [hfailed, he, ReadError.ofParse]⟩

end

end Conditions
