import Conditions.Grammar

/-!
# Derivations of the grammar

The words of each production with their trees, as the grammar is written. Nothing here says in which
order, or up to where, the parts of a word are looked for.
-/

namespace Conditions

/-- The word of tokens is one of the production, and stands for the tree. -/
inductive Derives : Production → List Token → Tree → Prop where
  | number {t : Token} : t.kind = .number → Derives .number [t] t.payload
  | string {t : Token} : t.kind = .string → Derives .string [t] t.payload
  | leftParen {t : Token} : t.kind = .leftParen → Derives .leftParen [t] (.token t)
  | rightParen {t : Token} : t.kind = .rightParen → Derives .rightParen [t] (.token t)
  | connective {t : Token} : t.kind = .and ∨ t.kind = .or → Derives .connective [t] (.token t)
  | wildcard {t : Token} : t.kind = .wildcard → Derives .newState [t] (.token t)
  | stateNumber {w : List Token} {x : Tree} : Derives .number w x → Derives .newState w x
  | valueSet {l r : Token} {parts : List (List Token × Tree)} :
      l.kind = .leftParen → (∀ part ∈ parts, Derives .number part.1 part.2) →
      r.kind = .rightParen →
      Derives .valueSet (l :: (parts.map Prod.fst).flatten ++ [r]) (.list (parts.map Prod.snd))
  | variableRef {l k r : Token} {w : List Token} {name : Tree} :
      l.kind = .leftParen → k.kind = .var → Derives .string w name → r.kind = .rightParen →
      Derives .variableRef (l :: k :: w ++ [r]) (.list [.token k, name])
  | equality {l k r : Token} {v w : List Token} {subject value : Tree} :
      l.kind = .leftParen → k.kind = .equals → Derives .variableRef v subject →
      Derives .number w value → r.kind = .rightParen →
      Derives .equality (l :: k :: v ++ w ++ [r]) (.list [.token k, subject, value])
  | compound {l k r : Token} {parts : List (List Token × Tree)} :
      l.kind = .leftParen → k.kind = .and ∨ k.kind = .or →
      (∀ part ∈ parts, Derives .condition part.1 part.2) → r.kind = .rightParen →
      Derives .compound (l :: k :: (parts.map Prod.fst).flatten ++ [r])
        (.list (.token k :: parts.map Prod.snd))
  | ofEquality {w : List Token} {tree : Tree} : Derives .equality w tree → Derives .condition w tree
  | ofCompound {w : List Token} {tree : Tree} : Derives .compound w tree → Derives .condition w tree

section
variable {w : List Token} {tree : Tree}

theorem derives_number_iff :
    Derives .number w tree ↔ ∃ t, w = [t] ∧ t.kind = .number ∧ tree = t.payload := by
  constructor
  · intro h
    cases h with
    | number h => exact ⟨_, rfl, h, rfl⟩
  · intro h
    rcases h with ⟨t, rfl, h, rfl⟩
    exact .number h

theorem derives_string_iff :
    Derives .string w tree ↔ ∃ t, w = [t] ∧ t.kind = .string ∧ tree = t.payload := by
  constructor
  · intro h
    cases h with
    | string h => exact ⟨_, rfl, h, rfl⟩
  · intro h
    rcases h with ⟨t, rfl, h, rfl⟩
    exact .string h

theorem derives_leftParen_iff :
    Derives .leftParen w tree ↔ ∃ t, w = [t] ∧ t.kind = .leftParen ∧ tree = .token t := by
  constructor
  · intro h
    cases h with
    | leftParen h => exact ⟨_, rfl, h, rfl⟩
  · intro h
    rcases h with ⟨t, rfl, h, rfl⟩
    exact .leftParen h

theorem derives_rightParen_iff :
    Derives .rightParen w tree ↔ ∃ t, w = [t] ∧ t.kind = .rightParen ∧ tree = .token t := by
  constructor
  · intro h
    cases h with
    | rightParen h => exact ⟨_, rfl, h, rfl⟩
  · intro h
    rcases h with ⟨t, rfl, h, rfl⟩
    exact .rightParen h

theorem derives_connective_iff :
    Derives .connective w tree ↔
      ∃ t, w = [t] ∧ (t.kind = .and ∨ t.kind = .or) ∧ tree = .token t := by
  constructor
  · intro h
    cases h with
    | connective h => exact ⟨_, rfl, h, rfl⟩
  · intro h
    rcases h with ⟨t, rfl, h, rfl⟩
    exact .connective h

theorem derives_condition_iff :
    Derives .condition w tree ↔ Derives .equality w tree ∨ Derives .compound w tree := by
  constructor
  · intro h
    cases h with
    | ofEquality h => exact Or.inl h
    | ofCompound h => exact Or.inr h
  · intro h
    rcases h with h | h
    · exact .ofEquality h
    · exact .ofCompound h

/-- The second token of a condition tells which of the two forms it has. -/
theorem Derives.second_of_equality (h : Derives .equality w tree) :
    ∃ l k v, w = l :: k :: v ∧ l.kind = .leftParen ∧ k.kind = .equals := by
  cases h with
  | equality hl hk _ _ _ => exact ⟨_, _, _, rfl, hl, hk⟩

theorem Derives.second_of_compound (h : Derives .compound w tree) :
    ∃ l k v, w = l :: k :: v ∧ l.kind = .leftParen ∧ (k.kind = .and ∨ k.kind = .or) := by
  cases h with
  | compound hl hk _ _ => exact ⟨_, _, _, rfl, hl, hk⟩

theorem Derives.head_of_condition (h : Derives .condition w tree) :
    ∃ l v, w = l :: v ∧ l.kind = .leftParen := by
  rcases derives_condition_iff.1 h with h | h
  · obtain ⟨l, k, v, rfl, hl, -⟩ := h.second_of_equality
    exact ⟨l, k :: v, rfl, hl⟩
  · obtain ⟨l, k, v, rfl, hl, -⟩ := h.second_of_compound
    exact ⟨l, k :: v, rfl, hl⟩

/-- No production has the empty word. -/
theorem Derives.ne_nil {production : Production} (h : Derives production w tree) : w ≠ [] := by
  induction h with
  | stateNumber _ ih | ofEquality _ ih | ofCompound _ ih => exact ih
  | _ => simp

end

end Conditions
