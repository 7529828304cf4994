import Conditions.Proofs.Classification

/-!
# Nodes and their tokens

A node is spelt with certain tokens, of which only the kinds and the values count. Two nodes are
equal just if their spellings are, and the tokens of a source that are read as a node are its
spelling. So a node determines its tokens, and is determined by them.
-/

namespace Conditions

/-- What counts of a token when tokens are compared. -/
def Token.content (t : Token) : TokenKind × Tree :=
  (t.kind, t.payload)

/-- Whether two contents are equal, as those of tokens are. -/
def SameContent (a b : TokenKind × Tree) : Prop :=
  a.1 = b.1 ∧ a.2.same b.2 = true

/-- The keyword or delimiter of the kind. -/
abbrev bare (kind : TokenKind) : TokenKind × Tree :=
  (kind, .absent)

/-- The contents between those of parentheses. -/
def bracketed (ws : List (TokenKind × Tree)) : List (TokenKind × Tree) :=
  bare .leftParen :: ws ++ [bare .rightParen]

/-- How a variable is spelt. -/
def spellVariable (name : String) : List (TokenKind × Tree) :=
  bracketed [bare .var, (.string, .text name)]

mutual

/-- How a condition is spelt. -/
def Condition.spelling : Condition → List (TokenKind × Tree)
  | .equality name x => bracketed (bare .equals :: spellVariable name ++ [(.number, .number x)])
  | .compound connective operands =>
    bracketed (bare connective.tokenKind :: Condition.spellingAll operands)

/-- How conditions are spelt, one behind the other. -/
def Condition.spellingAll : List Condition → List (TokenKind × Tree)
  | [] => []
  | c :: cs => c.spelling ++ Condition.spellingAll cs

end

/-- How a node is spelt. -/
def Node.spelling : Node → List (TokenKind × Tree)
  | .number x => [(.number, .number x)]
  | .wildcard => [bare .wildcard]
  | .variableRef name => spellVariable name
  | .valueSet xs => bracketed (xs.map fun x => (.number, .number x))
  | .condition c => c.spelling

/-! ## Equal nodes are spelt alike -/

mutual

/-- Spellings can be told apart whatever follows them: what comes first shows of which form the
condition is, and a parenthesis where its operands end. -/
theorem Condition.sameContent_iff (c d : Condition) (u v : List (TokenKind × Tree)) :
    List.Forall₂ SameContent (c.spelling ++ u) (d.spelling ++ v) ↔
      c.same d = true ∧ List.Forall₂ SameContent u v := by
  cases c with
  | equality m x =>
    cases d with
    | equality n y =>
      simp [spelling, bracketed, spellVariable, SameContent, Tree.same, Tree.value?, Condition.same,
        Number.same, and_assoc]
    | compound e ys =>
      cases e <;> simp [spelling, bracketed, SameContent, Condition.same, Connective.tokenKind]
  | compound c xs =>
    cases d with
    | equality n y =>
      cases c <;> simp [spelling, bracketed, SameContent, Condition.same, Connective.tokenKind]
    | compound d ys =>
      have := sameContent_all_iff xs ys u v
      have hkind : c.tokenKind = d.tokenKind ↔ c = d := by
        cases c <;> cases d <;> simp [Connective.tokenKind]
      simp only [spelling, bracketed, List.cons_append, List.append_assoc, List.nil_append,
        List.forall₂_cons, this]
      simp [SameContent, Condition.same, Tree.same, hkind, and_assoc]

theorem Condition.sameContent_all_iff (xs ys : List Condition) (u v : List (TokenKind × Tree)) :
    List.Forall₂ SameContent (spellingAll xs ++ bare .rightParen :: u)
        (spellingAll ys ++ bare .rightParen :: v) ↔
      Condition.sameAll xs ys = true ∧ List.Forall₂ SameContent u v := by
  cases xs with
  | nil =>
    cases ys with
    | nil => simp [spellingAll, SameContent, Tree.same, Condition.sameAll]
    | cons y ys =>
      cases y <;> simp [spellingAll, SameContent, Condition.sameAll, spelling, bracketed]
  | cons x xs =>
    cases ys with
    | nil => cases x <;> simp [spellingAll, SameContent, Condition.sameAll, spelling, bracketed]
    | cons y ys =>
      have h := sameContent_iff x y (spellingAll xs ++ bare .rightParen :: u)
        (spellingAll ys ++ bare .rightParen :: v)
      simp [spellingAll, List.append_assoc, h, sameContent_all_iff xs ys u v, Condition.sameAll,
        and_assoc]

end

theorem Node.sameNumbers_iff (xs ys : List Number) (u v : List (TokenKind × Tree)) :
    List.Forall₂ SameContent (xs.map (fun x => (.number, .number x)) ++ bare .rightParen :: u)
        (ys.map (fun y => (.number, .number y)) ++ bare .rightParen :: v) ↔
      sameNumbers xs ys = true ∧ List.Forall₂ SameContent u v := by
  induction xs generalizing ys with
  | nil => cases ys <;> simp [SameContent, Tree.same, sameNumbers]
  | cons x xs ih =>
    cases ys with
    | nil => simp [SameContent, sameNumbers]
    | cons y ys =>
      have hsame : (Tree.number x).same (.number y) = x.same y := by
        simp [Tree.same, Tree.value?, Number.same]
      simp [ih, sameNumbers, SameContent, hsame, and_assoc]

/-- Two nodes of one goal are equal just if their spellings are. -/
theorem Goal.sameContent_iff {goal : Goal} {s t : Tree} {m n : Node} (hm : goal.build s = .ok m)
    (hn : goal.build t = .ok n) :
    List.Forall₂ SameContent m.spelling n.spelling ↔ m.same n = true := by
  cases goal with
  | condition =>
    obtain ⟨c, -, rfl⟩ := map_eq_ok_iff.1 hm
    obtain ⟨d, -, rfl⟩ := map_eq_ok_iff.1 hn
    simpa [Node.spelling, Node.same] using Condition.sameContent_iff c d [] []
  | variableRef =>
    obtain ⟨name, -, rfl⟩ := map_eq_ok_iff.1 hm
    obtain ⟨name', -, rfl⟩ := map_eq_ok_iff.1 hn
    simp [Node.spelling, spellVariable, bracketed, SameContent, Node.same, Tree.same]
  | valueSet =>
    obtain ⟨xs, -, rfl⟩ := map_eq_ok_iff.1 hm
    obtain ⟨ys, -, rfl⟩ := map_eq_ok_iff.1 hn
    simpa [Node.spelling, bracketed, SameContent, Node.same, Tree.same] using
      Node.sameNumbers_iff xs ys [] []
  | newState =>
    rcases Tree.toNewState_eq_ok_iff.1 hm with ⟨_, -, -, rfl⟩ | ⟨x, -, rfl⟩ <;>
      rcases Tree.toNewState_eq_ok_iff.1 hn with ⟨_, -, -, rfl⟩ | ⟨y, -, rfl⟩ <;>
      simp [Node.spelling, SameContent, Node.same, Tree.same, Tree.value?, Number.same]

/-! ## Spelling what is read -/

section
variable {w : List Token} {tree : Tree}

theorem Token.content_eq_bare {t : Token} {kind : TokenKind} (ht : t.Plain) (hkind : t.kind = kind)
    (hliteral : kind.isLiteral = false) : t.content = bare kind := by
  subst hkind
  rw [content, ht hliteral]

theorem Derives.content_of_number {x : Number} (h : Derives .number w (.number x)) :
    w.map Token.content = [(.number, .number x)] := by
  obtain ⟨t, rfl, hkind, hpayload⟩ := derives_number_iff.1 h
  simp [Token.content, hkind, ← hpayload]

theorem Derives.content_of_numbers {parts : List (List Token × Tree)} {xs : List Number}
    (h : ∀ part ∈ parts, Derives .number part.1 part.2)
    (hxs : parts.map Prod.snd = xs.map .number) :
    (parts.map Prod.fst).flatten.map Token.content = xs.map fun x => (.number, .number x) := by
  induction parts generalizing xs with
  | nil =>
    rw [List.map_nil, eq_comm, List.map_eq_nil_iff] at hxs
    rw [hxs]
    rfl
  | cons part parts ih =>
    obtain ⟨x, xs, rfl, hx, hxs⟩ := List.map_eq_cons_iff.1 hxs.symm
    have hpart : Derives .number part.1 (.number x) := hx ▸ h part List.mem_cons_self
    have hparts := ih (fun part hpart => h part (List.mem_cons_of_mem _ hpart)) hxs.symm
    rw [List.map_cons, List.flatten_cons, List.map_append, hpart.content_of_number, hparts]
    rfl

theorem Derives.content_of_variable {name : String} (h : Derives .variableRef w tree)
    (hw : ∀ t ∈ w, t.Plain) (hname : tree.toVariable = .ok name) :
    w.map Token.content = spellVariable name := by
  cases h with
  | @variableRef l k r v _ hl hk hv hr =>
    obtain ⟨t, -, htree⟩ := Tree.toVariable_eq_ok_iff.1 hname
    simp only [Tree.list.injEq, List.cons.injEq, Tree.token.injEq, and_true] at htree
    obtain ⟨-, rfl⟩ := htree
    obtain ⟨s, rfl, hs, hpayload⟩ := derives_string_iff.1 hv
    have hleft := Token.content_eq_bare (hw l (by simp)) hl rfl
    have hkey := Token.content_eq_bare (hw k (by simp)) hk rfl
    have hright := Token.content_eq_bare (hw r (by simp)) hr rfl
    have hstring : s.content = (.string, .text name) := by rw [Token.content, hs, hpayload]
    simp [spellVariable, bracketed, hleft, hkey, hright, hstring]

/-- The contents of operands, if the contents of each of them are known. -/
theorem Condition.content_of_parts {parts : List (List Token × Tree)} {cs : List Condition}
    (hcs : List.Forall₂ (fun part c => part.toCondition = .ok c) (parts.map Prod.snd) cs)
    (h : ∀ part ∈ parts, ∀ c, part.2.toCondition = .ok c →
      part.1.map Token.content = c.spelling) :
    (parts.map Prod.fst).flatten.map Token.content = spellingAll cs := by
  induction parts generalizing cs with
  | nil =>
    cases hcs
    rfl
  | cons part parts ih =>
    cases hcs with
    | cons hc hcs =>
      have hpart := h part List.mem_cons_self _ hc
      have hparts := ih hcs fun part hpart => h part (List.mem_cons_of_mem _ hpart)
      rw [List.map_cons, List.flatten_cons, List.map_append, hpart, hparts, spellingAll]

/-- The forms of conditions are spelt as the condition is. -/
theorem Derives.content_of_condition {production : Production} (h : Derives production w tree) :
    production = .condition ∨ production = .equality ∨ production = .compound →
    (∀ t ∈ w, t.Plain) → ∀ c, tree.toCondition = .ok c → w.map Token.content = c.spelling := by
  induction h with
  | ofEquality _ ih => exact fun _ => ih (by simp)
  | ofCompound _ ih => exact fun _ => ih (by simp)
  | @equality l k r v w subject value hl hk hv hvalue hr _ _ =>
    intro _ hw c hc
    rcases Tree.toCondition_eq_ok_iff.1 hc with
      ⟨t, subject', name, x, -, hname, htree, rfl⟩ | ⟨t, connective, parts, cs, ht, -, htree, -⟩
    · simp only [Tree.list.injEq, List.cons.injEq, Tree.token.injEq, and_true] at htree
      obtain ⟨-, rfl, rfl⟩ := htree
      have hleft := Token.content_eq_bare (hw l (by simp)) hl rfl
      have hkey := Token.content_eq_bare (hw k (by simp)) hk rfl
      have hright := Token.content_eq_bare (hw r (by simp)) hr rfl
      have hvariable := hv.content_of_variable (fun t ht => hw t (by simp [ht])) hname
      simp [Condition.spelling, bracketed, hleft, hkey, hright, hvariable,
        hvalue.content_of_number]
    · simp only [Tree.list.injEq, List.cons.injEq, Tree.token.injEq] at htree
      rw [← htree.1, hk] at ht
      cases connective <;> cases ht
  | @compound l k r parts hl hk _ hr ih =>
    intro _ hw c hc
    rcases Tree.toCondition_eq_ok_iff.1 hc with
      ⟨t, subject, name, x, ht, -, htree, -⟩ | ⟨t, connective, parts', cs, ht, hcs, htree, rfl⟩
    · simp only [Tree.list.injEq, List.cons.injEq, Tree.token.injEq] at htree
      rw [← htree.1] at ht
      rcases hk with hk | hk <;> rw [hk] at ht <;> cases ht
    · simp only [Tree.list.injEq, List.cons.injEq, Tree.token.injEq] at htree
      obtain ⟨rfl, rfl⟩ := htree
      have hliteral : connective.tokenKind.isLiteral = false := by cases connective <;> rfl
      have hleft := Token.content_eq_bare (hw l (by simp)) hl rfl
      have hkey := Token.content_eq_bare (hw k (by simp)) ht hliteral
      have hright := Token.content_eq_bare (hw r (by simp)) hr rfl
      have hparts := Condition.content_of_parts hcs fun part hpart =>
        ih part hpart (by simp) fun t ht => hw t (by simp [mem_flatten_words hpart ht])
      simp only [List.map_cons, List.map_append, List.map_nil, hleft, hkey, hright, hparts,
        Condition.spelling, bracketed]
  | _ =>
    rintro (h | h | h) <;> cases h

/-- Tokens whose keywords and delimiters carry no value have the contents that the node they are
read as is spelt with. -/
theorem Derives.content_eq_spelling {goal : Goal} {node : Node} (h : Derives goal.production w tree)
    (hw : ∀ t ∈ w, t.Plain) (htyped : ∀ t ∈ w, t.WellTyped) (hnode : goal.build tree = .ok node) :
    w.map Token.content = node.spelling := by
  cases goal with
  | condition =>
    obtain ⟨c, hc, rfl⟩ := map_eq_ok_iff.1 hnode
    exact h.content_of_condition (Or.inl rfl) hw c hc
  | variableRef =>
    obtain ⟨name, hname, rfl⟩ := map_eq_ok_iff.1 hnode
    exact h.content_of_variable hw hname
  | valueSet =>
    obtain ⟨xs, hxs, rfl⟩ := map_eq_ok_iff.1 hnode
    rw [Tree.toValueSet_eq_ok_iff] at hxs
    cases h with
    | @valueSet l r parts hl hparts hr =>
      simp only [Tree.list.injEq] at hxs
      have hleft := Token.content_eq_bare (hw l (by simp)) hl rfl
      have hright := Token.content_eq_bare (hw r (by simp)) hr rfl
      simp only [List.map_cons, List.map_append, List.map_nil, hleft, hright,
        content_of_numbers hparts hxs, Node.spelling, bracketed]
  | newState =>
    have hnode : tree.toNewState = .ok node := hnode
    cases h with
    | @wildcard t hkind =>
      have hwildcard := Token.content_eq_bare (hw t (by simp)) hkind rfl
      rcases Tree.toNewState_eq_ok_iff.1 hnode with ⟨_, -, -, rfl⟩ | ⟨x, htree, -⟩
      · simp [Node.spelling, hwildcard]
      · cases htree
    | stateNumber h =>
      obtain ⟨x, rfl⟩ := h.builds htyped
      rcases Tree.toNewState_eq_ok_iff.1 hnode with ⟨_, -, htree, -⟩ | ⟨y, htree, rfl⟩
      · cases htree
      · cases htree
        exact h.content_of_number

/-! ## Tokens that were lexed -/

/-- Tokens are compared by their contents. -/
theorem forall₂_same_iff {tokens tokens' : List Token} :
    List.Forall₂ (fun t t' => t.same t' = true) tokens tokens' ↔
      List.Forall₂ SameContent (tokens.map Token.content) (tokens'.map Token.content) := by
  rw [List.forall₂_map_left_iff, List.forall₂_map_right_iff]
  have hsame : ∀ t t' : Token, t.same t' = true ↔ SameContent t.content t'.content := by
    intro t t'
    cases t
    cases t'
    simp [Token.same, SameContent, Token.content]
  simp only [hsame]

theorem forall₂_iff_getElem? {α : Type} {R : α → α → Prop} {xs ys : List α} :
    List.Forall₂ R xs ys ↔
      xs.length = ys.length ∧
        ∀ (i : Nat) (x y : α), xs[i]? = some x → ys[i]? = some y → R x y := by
  rw [List.forall₂_iff_get]
  apply and_congr_right
  intro hlength
  apply Iff.intro
  · intro h i x y hx hy
    obtain ⟨hi, rfl⟩ := List.getElem?_eq_some_iff.1 hx
    obtain ⟨hi', rfl⟩ := List.getElem?_eq_some_iff.1 hy
    exact h i hi hi'
  · intro h i hi hi'
    exact h i _ _ (List.getElem?_eq_getElem hi) (List.getElem?_eq_getElem hi')

/-- Tokens of a source that are read as a node have the contents that the node is spelt with. -/
theorem content_eq_spelling_of_read {goal : Goal} {source filename : String} {tokens : List Token}
    {node : Node} (h : tokenize source filename = .ok tokens)
    (hread : read goal tokens.toArray = .ok node) :
    ∃ tree, goal.build tree = .ok node ∧ tokens.map Token.content = node.spelling := by
  have hsentence : goal.IsSentence tokens := by
    rw [← read_ne_parse_and_ne_unwritable_iff, hread]
    exact ⟨nofun, nofun⟩
  obtain ⟨tree, htree⟩ := hsentence
  rw [read_of_sentence htree, mapError_build_eq_ok_iff] at hread
  have hlexed := lexed_of_tokenize h
  exact ⟨tree, hread, htree.content_eq_spelling (fun t ht => (hlexed t ht).plain)
    (fun t ht => (hlexed t ht).wellTyped) hread⟩

/-- The tokens of two sources are read as equal nodes just if they are equal one by one. Where the
tokens come from, how they are written and what stands between them makes no difference to the
node; every other difference does. -/
theorem Node.same_iff_tokens_same {goal : Goal} {source filename source' filename' : String}
    {tokens tokens' : List Token} {node node' : Node}
    (h : tokenize source filename = .ok tokens) (h' : tokenize source' filename' = .ok tokens')
    (hread : ((Reader.ofTokens tokens).read goal).2 = .ok node)
    (hread' : ((Reader.ofTokens tokens').read goal).2 = .ok node') :
    node.same node' = true ↔
      tokens.length = tokens'.length ∧
        ∀ (i : Nat) (t t' : Token), tokens[i]? = some t → tokens'[i]? = some t' →
          t.same t' = true := by
  rw [Reader.read_snd] at hread hread'
  obtain ⟨tree, hbuild, hcontent⟩ := content_eq_spelling_of_read h hread
  obtain ⟨tree', hbuild', hcontent'⟩ := content_eq_spelling_of_read h' hread'
  rw [← Goal.sameContent_iff hbuild hbuild', ← hcontent, ← hcontent', ← forall₂_same_iff,
    forall₂_iff_getElem?]

theorem Node.same_iff_tokens_same_cases :
    ∃ tokens tokens' node node', tokenize "(var \x22a\x22)" "f" = .ok tokens ∧
      tokenize "( VaR\x22\\a\x22;c\n)" "g" = .ok tokens' ∧
      ((Reader.ofTokens tokens).read .variableRef).2 = .ok node ∧
      ((Reader.ofTokens tokens').read .variableRef).2 = .ok node' ∧ node.same node' = true ∧
      tokens.length = tokens'.length ∧
        ∀ (i : Nat) (t t' : Token), tokens[i]? = some t → tokens'[i]? = some t' →
          t.same t' = true := by
  have hvar : ("VAR", .var) ∈ keywords := by decide
  have hplain : StringText ['a'] ['a'] := .plain (by decide) (by decide) .nil
  have hescape : StringText ['\\', 'a'] ['a'] := .escape .nil
  have htiles : Tiles _ ['(', 'v', 'a', 'r', ' ', '\x22', 'a', '\x22', ')'] [] :=
    .cons (p := .lexeme (.token .leftParen .absent) ['(']) (.delimiter rfl) <|
    .cons (fits_keyword (w := ['v', 'a', 'r']) hvar (by decide) (stopsAt_cons rfl)) <|
    .cons (p := .blank ' ') (.blank (by decide)) <|
    .cons (.string hplain) <|
    .cons (p := .lexeme (.token .rightParen .absent) [')']) (.delimiter rfl) .nil
  have htiles' :
      Tiles _ ['(', ' ', 'V', 'a', 'R', '\x22', '\\', 'a', '\x22', ';', 'c', '\n', ')'] [] :=
    .cons (p := .lexeme (.token .leftParen .absent) ['(']) (.delimiter rfl) <|
    .cons (p := .blank ' ') (.blank (by decide)) <|
    .cons (fits_keyword (w := ['V', 'a', 'R']) hvar (by decide) (stopsAt_cons rfl)) <|
    .cons (.string hescape) <|
    .cons (p := .comment [';', 'c']) (.comment (by simp [inLine]) (stopsAt_cons rfl)) <|
    .cons (p := .blank '\n') (.blank (by decide)) <|
    .cons (p := .lexeme (.token .rightParen .absent) [')']) (.delimiter rfl) .nil
  have h : tokenize "(var \x22a\x22)" "f" = .ok _ := tokenize_of_tiles htiles rfl
  have h' : tokenize "( VaR\x22\\a\x22;c\n)" "g" = .ok _ := tokenize_of_tiles htiles' rfl
  have hsame : (Node.variableRef "a").same (.variableRef "a") = true := by decide
  refine ⟨_, _, .variableRef "a", .variableRef "a", h, h', by rfl, by rfl, hsame, ?_⟩
  exact (Node.same_iff_tokens_same h h' (show (Reader.read _ .variableRef).2 = _ by rfl)
    (by rfl)).1 hsame

end

end Conditions
