import Conditions.Proofs.Writing
import Mathlib.Data.List.Forall2

/-!
# The trees that stand for nodes

The grammar says which trees there are, and the builders say which trees stand for a node. Both
describe the same shapes, each in its own way: a builder accepts a tree just if its production
yields the tree from tokens whose literals carry values of the right type. A list of tokens that was
lexed has no other literals, so reading it ends in a node or in a parse error.
-/

namespace Conditions

/-! ## What the builders accept -/

section
variable {α β ε : Type}

/-- A function is applied to every element of a list, and each application succeeds. -/
theorem mapM_eq_ok_iff {f : α → Except ε β} {xs : List α} {ys : List β} :
    xs.mapM f = .ok ys ↔ List.Forall₂ (fun x y => f x = .ok y) xs ys := by
  induction xs generalizing ys with
  | nil => cases ys <;> simp [pure, Except.pure]
  | cons x xs ih =>
    simp only [List.mapM_cons, bind_eq_ok_iff, ih, List.forall₂_cons_left_iff]
    apply Iff.intro
    · rintro ⟨y, hy, ys', hys, heq⟩
      cases heq
      exact ⟨y, ys', hy, hys, rfl⟩
    · rintro ⟨y, ys', hy, hys, rfl⟩
      exact ⟨y, hy, ys', hys, rfl⟩

end

namespace Tree

variable {tree : Tree}

theorem toNumber_eq_ok_iff {x : Number} : tree.toNumber = .ok x ↔ tree = .number x := by
  cases tree <;> simp [toNumber]

theorem toValueSet_eq_ok_iff {xs : List Number} :
    tree.toValueSet = .ok xs ↔ tree = .list (xs.map .number) := by
  cases tree with
  | list items =>
    have hmap : List.Forall₂ (· = ·) items (xs.map Tree.number) ↔ items = xs.map .number := by
      rw [List.forall₂_eq_eq_eq]
    simp only [toValueSet, mapM_eq_ok_iff, toNumber_eq_ok_iff, list.injEq, ← hmap,
      List.forall₂_map_right_iff]
  | _ => simp [toValueSet]

theorem toNewState_eq_ok_iff {node : Node} :
    tree.toNewState = .ok node ↔
      (∃ t, t.kind = .wildcard ∧ tree = .token t ∧ node = .wildcard) ∨
      ∃ x, tree = .number x ∧ node = .number x := by
  cases tree with
  | token t =>
    by_cases ht : t.kind = .wildcard
    · simpa [toNewState, ht] using eq_comm
    · simp [toNewState, ht]
  | number x => simp [toNewState, toNumber, Except.map, eq_comm]
  | _ => simp [toNewState, toNumber, Except.map]

theorem toVariable_eq_ok_iff {name : String} :
    tree.toVariable = .ok name ↔ ∃ t, t.kind = .var ∧ tree = .list [.token t, .text name] := by
  apply Iff.intro
  · intro h
    unfold toVariable at h
    split at h
    · next t name' =>
      by_cases ht : t.kind = .var
      · rw [if_pos ht] at h
        cases h
        exact ⟨t, ht, rfl⟩
      · rw [if_neg ht] at h
        cases h
    · cases h
  · rintro ⟨t, ht, rfl⟩
    simp [toVariable, ht]

/-- The two forms of the trees of conditions. -/
theorem toCondition_eq_ok_iff {c : Condition} :
    tree.toCondition = .ok c ↔
      (∃ t subject name x, t.kind = .equals ∧ subject.toVariable = .ok name ∧
        tree = .list [.token t, subject, .number x] ∧ c = .equality name x) ∨
      ∃ t connective parts cs, t.kind = connective.tokenKind ∧
        List.Forall₂ (fun part d => part.toCondition = .ok d) parts cs ∧
        tree = .list (.token t :: parts) ∧ c = .compound connective cs := by
  apply Iff.intro
  · intro h
    unfold toCondition at h
    split at h
    · next t parts =>
      split at h
      · next ht =>
        split at h
        · next subject value =>
          simp only [bind_eq_ok_iff, toNumber_eq_ok_iff] at h
          obtain ⟨name, hname, x, rfl, heq⟩ := h
          cases heq
          exact Or.inl ⟨t, subject, name, x, ht, hname, rfl, rfl⟩
        · cases h
      · next ht =>
        simp only [map_eq_ok_iff, toConditions_eq_mapM, mapM_eq_ok_iff] at h
        obtain ⟨cs, hcs, rfl⟩ := h
        exact Or.inr ⟨t, .and, parts, cs, ht, hcs, rfl, rfl⟩
      · next ht =>
        simp only [map_eq_ok_iff, toConditions_eq_mapM, mapM_eq_ok_iff] at h
        obtain ⟨cs, hcs, rfl⟩ := h
        exact Or.inr ⟨t, .or, parts, cs, ht, hcs, rfl, rfl⟩
      · cases h
    · cases h
  · rintro (⟨t, subject, name, x, ht, hname, rfl, rfl⟩ |
      ⟨t, connective, parts, cs, ht, hcs, rfl, rfl⟩)
    · simp [toCondition, ht, hname, toNumber, bind, Except.bind, pure, Except.pure]
    · rw [← mapM_eq_ok_iff, ← toConditions_eq_mapM] at hcs
      cases connective <;> simp [Connective.tokenKind] at ht <;>
        simp [toCondition, ht, hcs, Except.map]

end Tree

/-! ## What the productions yield -/

/-- The tokens between parentheses. -/
def enclosed (w : List Token) : List Token :=
  ⟨.leftParen, "(", .absent, none⟩ :: w ++ [⟨.rightParen, ")", .absent, none⟩]

theorem wellTyped_enclosed {w : List Token} (h : ∀ t ∈ w, t.WellTyped) :
    ∀ t ∈ enclosed w, t.WellTyped := by
  have hleft : Token.WellTyped ⟨.leftParen, "(", .absent, none⟩ := Token.wellTyped_of_isLiteral rfl
  have hright : Token.WellTyped ⟨.rightParen, ")", .absent, none⟩ :=
    Token.wellTyped_of_isLiteral rfl
  simpa [enclosed, or_imp, forall_and, hleft, hright] using h

/-- The production yields the tree from well-typed tokens. -/
def Production.Yields (production : Production) (tree : Tree) : Prop :=
  ∃ w, (∀ t ∈ w, t.WellTyped) ∧ Derives production w tree

namespace Production.Yields

theorem number (x : Number) : Production.number.Yields (.number x) := by
  refine ⟨[⟨.number, "", .number x, none⟩], ?_, .number rfl⟩
  intro t ht
  cases List.mem_singleton.1 ht
  exact ⟨fun _ => ⟨x, rfl⟩, fun h => by cases h⟩

theorem string (s : String) : Production.string.Yields (.text s) := by
  refine ⟨[.ofText s], ?_, .string rfl⟩
  intro t ht
  cases List.mem_singleton.1 ht
  exact ⟨fun h => (by cases h), fun _ => ⟨s, rfl⟩⟩

/-- Trees that are yielded one by one are yielded in a row. -/
theorem exists_parts {production : Production} {trees : List Tree}
    (h : ∀ tree ∈ trees, production.Yields tree) :
    ∃ parts : List (List Token × Tree), parts.map Prod.snd = trees ∧
      (∀ part ∈ parts, Derives production part.1 part.2) ∧
      ∀ t ∈ (parts.map Prod.fst).flatten, t.WellTyped := by
  induction trees with
  | nil => exact ⟨[], rfl, by simp, by simp⟩
  | cons tree trees ih =>
    obtain ⟨w, hw, hD⟩ := h tree List.mem_cons_self
    obtain ⟨parts, rfl, hparts, hwords⟩ :=
      ih fun tree htree => h tree (List.mem_cons_of_mem _ htree)
    refine ⟨(w, tree) :: parts, rfl, ?_, ?_⟩
    · simpa [hD] using hparts
    · intro t ht
      rw [List.map_cons, List.flatten_cons, List.mem_append] at ht
      rcases ht with ht | ht
      · exact hw t ht
      · exact hwords t ht

theorem valueSet (xs : List Number) : Production.valueSet.Yields (.list (xs.map .number)) := by
  have hnumbers : ∀ item ∈ xs.map Tree.number, Production.number.Yields item := by
    intro item hitem
    obtain ⟨x, -, rfl⟩ := List.mem_map.1 hitem
    exact number x
  obtain ⟨parts, hitems, hparts, hwords⟩ := exists_parts hnumbers
  rw [← hitems]
  exact ⟨_, wellTyped_enclosed hwords, .valueSet rfl hparts rfl⟩

theorem variableRef {t : Token} (ht : t.kind = .var) (name : String) :
    Production.variableRef.Yields (.list [.token t, .text name]) := by
  obtain ⟨w, hw, hD⟩ := string name
  have htyped : t.WellTyped := Token.wellTyped_of_isLiteral (by rw [ht]; rfl)
  refine ⟨enclosed (t :: w), wellTyped_enclosed ?_, .variableRef rfl ht hD rfl⟩
  exact List.forall_mem_cons.2 ⟨htyped, hw⟩

theorem equality {t : Token} {subject : Tree} {name : String} (ht : t.kind = .equals)
    (hsubject : subject.toVariable = .ok name) (x : Number) :
    Production.condition.Yields (.list [.token t, subject, .number x]) := by
  obtain ⟨k, hk, rfl⟩ := Tree.toVariable_eq_ok_iff.1 hsubject
  obtain ⟨v, hv, hDv⟩ := variableRef hk name
  obtain ⟨w, hw, hDw⟩ := number x
  have htyped : t.WellTyped := Token.wellTyped_of_isLiteral (by rw [ht]; rfl)
  refine ⟨enclosed (t :: v ++ w), wellTyped_enclosed ?_, .ofEquality (.equality rfl ht hDv hDw rfl)⟩
  simpa [or_imp, forall_and, htyped] using And.intro hv hw

theorem compound {t : Token} {connective : Connective} {parts : List Tree}
    (ht : t.kind = connective.tokenKind) (h : ∀ part ∈ parts, Production.condition.Yields part) :
    Production.condition.Yields (.list (.token t :: parts)) := by
  obtain ⟨parts, rfl, hparts, hwords⟩ := exists_parts h
  have hkind : t.kind = .and ∨ t.kind = .or := by
    cases connective with
    | and => exact Or.inl ht
    | or => exact Or.inr ht
  have htyped : t.WellTyped := by
    apply Token.wellTyped_of_isLiteral
    rcases hkind with hkind | hkind <;> rw [hkind] <;> rfl
  refine ⟨enclosed (t :: (parts.map Prod.fst).flatten), wellTyped_enclosed ?_,
    .ofCompound (.compound rfl hkind hparts rfl)⟩
  exact List.forall_mem_cons.2 ⟨htyped, hwords⟩

/-- The production of conditions yields every tree that stands for a condition. -/
theorem of_toCondition {tree : Tree} {c : Condition} (h : tree.toCondition = .ok c) :
    Production.condition.Yields tree := by
  rcases Tree.toCondition_eq_ok_iff.1 h with
    ⟨t, subject, name, x, ht, hname, rfl, -⟩ | ⟨t, connective, parts, cs, ht, hcs, htree, -⟩
  · exact equality ht hname x
  · rw [htree]
    apply compound ht
    intro part hpart
    obtain ⟨d, hd⟩ : ∃ d, part.toCondition = .ok d := by
      obtain ⟨i, hi, rfl⟩ := List.getElem_of_mem hpart
      exact ⟨_, hcs.get hi (hcs.length_eq ▸ hi)⟩
    exact of_toCondition hd
termination_by sizeOf tree
decreasing_by
  have := List.sizeOf_lt_of_mem hpart
  simp only [htree, Tree.list.sizeOf_spec, List.cons.sizeOf_spec]
  omega

end Production.Yields

/-- The production of a goal yields every tree that stands for a node of the goal. -/
theorem Goal.yields_of_build {goal : Goal} {tree : Tree} {node : Node}
    (h : goal.build tree = .ok node) : goal.production.Yields tree := by
  cases goal with
  | condition =>
    obtain ⟨c, hc, -⟩ := map_eq_ok_iff.1 h
    exact .of_toCondition hc
  | variableRef =>
    obtain ⟨name, hname, -⟩ := map_eq_ok_iff.1 h
    obtain ⟨t, ht, rfl⟩ := Tree.toVariable_eq_ok_iff.1 hname
    exact .variableRef ht name
  | valueSet =>
    obtain ⟨xs, hxs, -⟩ := map_eq_ok_iff.1 h
    rw [Tree.toValueSet_eq_ok_iff.1 hxs]
    exact .valueSet xs
  | newState =>
    rcases Tree.toNewState_eq_ok_iff.1 h with ⟨t, ht, rfl, -⟩ | ⟨x, rfl, -⟩
    · exact ⟨[t], by simpa using Token.wellTyped_of_isLiteral (by rw [ht]; rfl), .wildcard ht⟩
    · obtain ⟨w, hw, hD⟩ := Production.Yields.number x
      exact ⟨w, hw, .stateNumber hD⟩

/-- The production yields a tree just if its run on some well-typed tokens takes all of them and
has the tree. -/
theorem Production.yields_iff {production : Production} {tree : Tree} :
    production.Yields tree ↔ ∃ tokens : Array Token, (∀ t ∈ tokens, t.WellTyped) ∧
      production.outcome? tokens 0 = some (.matched tree tokens.size) := by
  simp only [outcome?_eq_matched_iff, derivesAt_whole_iff]
  apply Iff.intro
  · rintro ⟨w, hw, hD⟩
    exact ⟨w.toArray, by simpa using hw, hD⟩
  · rintro ⟨tokens, htokens, hD⟩
    exact ⟨tokens.toList, by simpa using htokens, hD⟩

/-! ## Builders and productions agree -/

theorem Goal.exists_build_iff_yields {goal : Goal} {tree : Tree} :
    (∃ node, goal.build tree = .ok node) ↔ goal.production.Yields tree := by
  apply Iff.intro
  · rintro ⟨node, hnode⟩
    exact yields_of_build hnode
  · rintro ⟨w, hw, hD⟩
    exact build_of_builds (hD.builds hw)

/-- Tokens as they are lexed are read as a node, or they are refused with a parse error. -/
theorem read_of_lexed {tokens : List Token} (h : ∀ t ∈ tokens, t.Lexed) (goal : Goal) :
    (∃ node, read goal tokens.toArray = .ok node) ∨
      ∃ e, read goal tokens.toArray = .error (.parse e) := by
  by_cases hsentence : ∃ tree, Derives goal.production tokens tree
  · obtain ⟨tree, htree⟩ := hsentence
    obtain ⟨node, hnode⟩ := Goal.build_of_builds (htree.builds fun t ht => (h t ht).wellTyped)
    have hread : read goal tokens.toArray = (goal.build tree).mapError .build :=
      read_of_derives htree
    exact Or.inl ⟨node, by rw [hread, hnode]; rfl⟩
  · exact Or.inr (read_of_not_derives (fun tree htree => hsentence ⟨tree, htree⟩)
      fun t ht => (h t (by simpa using ht)).showable)

/-- What is read does not depend on what was read before. -/
theorem Reader.read_snd (r : Reader) (goal : Goal) :
    (r.read goal).2 = Conditions.read goal r.tokens := by
  unfold Reader.read
  split
  · next h => exact h.symm
  · rfl

theorem tokens_of_tokenize {source filename : String} {tokens : List Token}
    (h : tokenize source filename = .ok tokens) : (lex source filename).tokens = tokens := by
  unfold tokenize at h
  generalize lex source filename = lexing at h ⊢
  obtain ⟨tokens', errors, stop, oversized?⟩ := lexing
  cases oversized? with
  | some e => cases h
  | none =>
    cases errors with
    | nil =>
      cases h
      rfl
    | cons e errors => cases h

theorem lexed_of_tokenize {source filename : String} {tokens : List Token}
    (h : tokenize source filename = .ok tokens) : ∀ t ∈ tokens, t.Lexed := by
  rw [← tokens_of_tokenize h]
  exact lexed_of_lex source filename

/-- A builder makes a node of exactly the trees that its production yields from well-typed tokens
which it takes up as a whole, and refuses all others. So tokens that were lexed are read without a
builder refusing their tree: the production ends without an error, and what is not read is refused
with a parse error, whatever was read before. -/
theorem Goal.build_accepts_exactly (goal : Goal) (tree : Tree) :
    ((∃ node, goal.build tree = .ok node) ↔
      ∃ tokens : Array Token, (∀ t ∈ tokens, t.WellTyped) ∧
        goal.production.outcome? tokens 0 = some (.matched tree tokens.size)) ∧
    ((¬ ∃ tokens : Array Token, (∀ t ∈ tokens, t.WellTyped) ∧
        goal.production.outcome? tokens 0 = some (.matched tree tokens.size)) →
      ∃ e : BuildError, goal.build tree = .error e) ∧
    (∀ source filename tokens, tokenize source filename = .ok tokens →
      (∃ a, goal.production.run tokens.toArray 0 = some a ∧ ∀ e, a.outcome ≠ .raised e) ∧
      ∀ r : Reader, r.tokens = tokens.toArray → ∀ e, (r.read goal).2 = .error e →
        ∃ e', e = .parse e') := by
  rw [← Production.yields_iff]
  refine ⟨exists_build_iff_yields, fun hnot => ?_, fun source filename tokens htokens => ⟨?_, ?_⟩⟩
  · cases hbuild : goal.build tree with
    | ok node => exact absurd (yields_of_build hbuild) hnot
    | error e => exact ⟨e, rfl⟩
  · obtain ⟨a, ha, hreads⟩ := goal.production.run_reads tokens.toArray 0
    exact ⟨a, ha, hreads.1⟩
  · intro r hr e he
    rw [Reader.read_snd, hr] at he
    rcases read_of_lexed (lexed_of_tokenize htokens) goal with ⟨node, hread⟩ | ⟨e', hread⟩
    · rw [hread] at he
      cases he
    · rw [hread] at he
      cases he
      exact ⟨e', rfl⟩

end Conditions
