import Conditions.Proofs.Derivation
import Conditions.Proofs.Language

/-!
# The productions recognise the grammar

Each production, run at any index of any tokens, matches exactly the words that the grammar derives.
A choice takes its first alternative, and a repetition takes all it can get; neither loses a word,
since two tokens tell the two forms of a condition apart, and since what is repeated cannot begin
with the parenthesis that must follow.
-/

namespace Conditions

open Conditions.Parser

namespace Language

/-- The words of a production, whatever follows them. -/
def ofProduction (production : Production) : Language Tree :=
  fun w tree _ => Derives production w tree

/-- Words of the languages in turn, between parentheses. -/
def parenthesized (Ls : List (Language Tree)) : Language Tree :=
  fun w tree rest => ∃ l v trees r, l.kind = .leftParen ∧ r.kind = .rightParen ∧
    w = l :: v ++ [r] ∧ tree = .list trees ∧ inTurn Ls v trees (r :: rest)

theorem inTurn_append_single {Ls : List (Language Tree)} {L : Language Tree} :
    ∀ {w : List Token} {trees : List Tree} {rest : List Token},
      inTurn (Ls ++ [L]) w trees rest ↔
        ∃ v vs u tree, w = v ++ u ∧ trees = vs ++ [tree] ∧ inTurn Ls v vs (u ++ rest) ∧
          L u tree rest := by
  induction Ls with
  | nil =>
    intro w trees rest
    constructor
    · intro h
      rcases h with ⟨u, tree, w₂, trees₂, rfl, rfl, hL, rfl, rfl⟩
      exact ⟨[], [], u, tree, by simp, rfl, ⟨rfl, rfl⟩, by simpa using hL⟩
    · intro h
      rcases h with ⟨v, vs, u, tree, rfl, rfl, ⟨rfl, rfl⟩, hL⟩
      exact ⟨u, tree, [], [], by simp, rfl, by simpa using hL, rfl, rfl⟩
  | cons M Ls ih =>
    intro w trees rest
    constructor
    · intro h
      rcases h with ⟨w₁, t₁, w₂, trees₂, rfl, rfl, hM, htail⟩
      obtain ⟨v, vs, u, tree, rfl, rfl, hLs, hL⟩ := ih.1 htail
      exact ⟨w₁ ++ v, t₁ :: vs, u, tree, by simp, rfl,
        ⟨w₁, t₁, v, vs, rfl, rfl, by simpa using hM, hLs⟩, hL⟩
    · intro h
      rcases h with ⟨v, vs, u, tree, rfl, rfl, ⟨w₁, t₁, v₂, vs₂, rfl, rfl, hM, hLs⟩, hL⟩
      exact ⟨w₁, t₁, v₂ ++ u, vs₂ ++ [tree], by simp, rfl, by simpa using hM,
        ih.2 ⟨v₂, vs₂, u, tree, rfl, rfl, hLs, hL⟩⟩

end Language

namespace Parser

variable {store : Store} {tokens : Array Token} {n : Nat} {i : Int}

theorem RunsRead.append_single {run : Parser → Int → Option Attempt} {p : Parser}
    {L : Language Tree} (hp : ∀ j, RunReads run tokens p L j) :
    ∀ {steps : List (Parser × Language Tree)} {i : Int}, RunsRead run tokens steps i →
      RunsRead run tokens (steps ++ [(p, L)]) i := by
  intro steps
  induction steps with
  | nil => intro i _; exact ⟨hp i, fun _ _ _ _ _ => trivial⟩
  | cons step steps ih =>
    intro i h
    rcases h with ⟨hstep, hsteps⟩
    exact ⟨hstep, fun w tree rest hw hL => ih (hsteps w tree rest hw hL)⟩

theorem Recognizes.parenthesized (steps : List (Parser × Language Tree))
    (h : ∀ l rest, tokensFrom tokens i = l :: rest → l.kind = .leftParen →
      RunsRead (attempt store tokens (n + 2)) tokens steps (i + 1)) :
    Recognizes store tokens (n + 4) (Parser.parenthesized (steps.map Prod.fst))
      (Language.parenthesized (steps.map Prod.snd)) i := by
  have hruns : RunsRead (attempt store tokens (n + 2)) tokens
      ((Parser.token .leftParen, Language.single .leftParen) :: (steps ++
        [(Parser.token .rightParen, Language.single .rightParen)])) i := by
    refine ⟨Recognizes.token _, ?_⟩
    intro w tree rest hw hleft
    rcases hleft with ⟨l, rfl, hl, rfl⟩
    exact (h l rest hw hl).append_single fun j => Recognizes.token _
  have hseq := (Recognizes.sequence _ hruns).transform (f := fun tree => .ok (dropEnds tree))
    fun _ => rfl
  simp only [List.map_cons, List.map_append, List.map_nil] at hseq
  refine hseq.congr ?_
  intro w tree rest _
  constructor
  · intro h
    rcases h with ⟨_, ⟨trees, ⟨_, _, w₂, trees₂, rfl, rfl, ⟨l, rfl, hl, rfl⟩, htail⟩, rfl⟩, rfl⟩
    obtain ⟨v, vs, _, _, rfl, rfl, hLs, r, rfl, hr, rfl⟩ := Language.inTurn_append_single.1 htail
    exact ⟨l, v, vs, r, hl, hr, by simp, by simp [dropEnds], hLs⟩
  · intro h
    rcases h with ⟨l, v, trees, r, hl, hr, rfl, rfl, hLs⟩
    refine ⟨_, ⟨_, ⟨[l], .token l, v ++ [r], trees ++ [.token r], by simp, rfl, ⟨l, rfl, hl, rfl⟩,
      Language.inTurn_append_single.2 ⟨v, trees, [r], .token r, rfl, rfl, hLs, r, rfl, hr, rfl⟩⟩,
      rfl⟩, by simp [dropEnds]⟩

end Parser

namespace Grammar

variable {tokens : Array Token} {n : Nat} {i : Int}

/-- The production recognises its words within the budget. -/
abbrev Accepts (tokens : Array Token) (n : Nat) (production : Production) (i : Int) : Prop :=
  Recognizes store tokens n production.parser (Language.ofProduction production) i

theorem leftParen_accepts : Accepts tokens (n + 2) .leftParen i := by
  refine (Recognizes.token _).congr fun w tree rest _ => ?_
  exact derives_leftParen_iff.symm

theorem rightParen_accepts : Accepts tokens (n + 2) .rightParen i := by
  refine (Recognizes.token _).congr fun w tree rest _ => ?_
  exact derives_rightParen_iff.symm

theorem connective_accepts : Accepts tokens (n + 3) .connective i := by
  refine ((Recognizes.token .and).choice (Recognizes.token .or)).congr fun w tree rest _ => ?_
  refine Iff.trans ?_ derives_connective_iff.symm
  constructor
  · intro h
    rcases h with ⟨t, rfl, hk, rfl⟩ | ⟨⟨t, rfl, hk, rfl⟩, -⟩
    · exact ⟨t, rfl, Or.inl hk, rfl⟩
    · exact ⟨t, rfl, Or.inr hk, rfl⟩
  · intro h
    rcases h with ⟨t, rfl, hk | hk, rfl⟩
    · exact Or.inl ⟨t, rfl, hk, rfl⟩
    · refine Or.inr ⟨⟨t, rfl, hk, rfl⟩, ?_⟩
      intro v y rest' hv h
      rcases h with ⟨t', rfl, hk', rfl⟩
      simp only [List.cons_append, List.nil_append, List.cons.injEq] at hv
      rw [hv.1, hk] at hk'
      cases hk'

/-- The value of one token of the kind is recognised, under any name. -/
theorem payload_recognized (kind : TokenKind) (name : String) :
    Recognizes store tokens (n + 4)
      (.named name (.transform (.token kind) fun tree => .ok (Token.payloadOf tree)))
      (fun w tree _ => ∃ t, w = [t] ∧ t.kind = kind ∧ tree = t.payload) i := by
  refine (((Recognizes.token kind).transform fun _ => rfl).named).congr fun w tree rest _ => ?_
  constructor
  · intro h
    rcases h with ⟨_, ⟨t, rfl, hk, rfl⟩, rfl⟩
    exact ⟨t, rfl, hk, rfl⟩
  · intro h
    rcases h with ⟨t, rfl, hk, rfl⟩
    exact ⟨.token t, ⟨t, rfl, hk, rfl⟩, rfl⟩

theorem number_accepts : Accepts tokens (n + 4) .number i :=
  (payload_recognized .number "number").congr fun _ _ _ _ => derives_number_iff.symm

theorem string_accepts : Accepts tokens (n + 4) .string i :=
  (payload_recognized .string "string").congr fun _ _ _ _ => derives_string_iff.symm

theorem newState_accepts : Accepts tokens (n + 6) .newState i := by
  refine ((number_accepts.choice (Recognizes.token .wildcard)).named).congr fun w tree rest _ => ?_
  constructor
  · intro h
    rcases h with h | ⟨⟨t, rfl, hk, rfl⟩, -⟩
    · exact .stateNumber h
    · exact .wildcard hk
  · intro h
    cases h with
    | stateNumber h => exact Or.inl h
    | wildcard hk =>
      refine Or.inr ⟨⟨_, rfl, hk, rfl⟩, ?_⟩
      intro v y rest' hv hD
      obtain ⟨t', rfl, hk', -⟩ := derives_number_iff.1 hD
      simp only [List.cons_append, List.nil_append, List.cons.injEq] at hv
      rw [hv.1, hk] at hk'
      cases hk'

/-- What the closing parenthesis cannot begin, it ends the repetition of. -/
theorem not_derives_of_rightParen {production : Production} {kind : TokenKind}
    (hhead : ∀ w tree, Derives production w tree → ∃ t v, w = t :: v ∧ t.kind = kind)
    (hkind : kind ≠ .rightParen) {r : Token} (hr : r.kind = .rightParen) {rest v x : List Token}
    (hv : r :: rest = v ++ x) (tree : Tree) : ¬ Derives production v tree := by
  intro hD
  obtain ⟨t, v, rfl, ht⟩ := hhead _ _ hD
  simp only [List.cons_append, List.cons.injEq] at hv
  rw [← hv.1, hr] at ht
  exact hkind ht.symm

theorem valueSet_accepts (hn : (tokensFrom tokens i).length ≤ n) :
    Accepts tokens (n + 11) .valueSet i := by
  have hmany : ∀ l rest, tokensFrom tokens i = l :: rest → l.kind = .leftParen →
      RunsRead (attempt store tokens (n + 7)) tokens
        [(.many number, (Language.repeated (Derives .number)).image .list)] (i + 1) := by
    intro l rest hl _
    have hrest : tokensFrom tokens (i + 1) = rest := tokensFrom_append (w := [l]) hl
    have hlen : rest.length < n := by
      rw [hl] at hn
      exact hn
    refine ⟨(Recognizes.many (n := n + 6) (fun _ _ h => h.ne_nil) ?_ ?_), fun _ _ _ _ _ => trivial⟩
    · rw [hrest]
      omega
    · intro j _
      exact number_accepts
  refine (((Recognizes.parenthesized _ hmany).transform fun _ => rfl).named).congr
    fun w tree rest _ => ?_
  constructor
  · intro h
    rcases h with ⟨_, ⟨l, _, _, r, hl, hr, rfl, rfl, _, _, _, _, rfl, rfl, ⟨_, ⟨⟨parts, hparts,
      rfl, rfl⟩, -⟩, rfl⟩, rfl, rfl⟩, rfl⟩
    simpa [Tree.first, Language.ofProduction] using Derives.valueSet hl hparts hr
  · intro h
    cases h with
    | @valueSet l r parts hl hparts hr =>
      refine ⟨_, ⟨l, _, _, r, hl, hr, rfl, rfl, (parts.map Prod.fst).flatten, _, [], [], by simp,
        rfl, ⟨_, ⟨⟨parts, hparts, rfl, rfl⟩, ?_⟩, rfl⟩, rfl, rfl⟩, rfl⟩
      have hhead : ∀ w tree, Derives .number w tree → ∃ t v, w = t :: v ∧ t.kind = .number := by
        intro w tree h
        obtain ⟨t, rfl, ht, -⟩ := derives_number_iff.1 h
        exact ⟨t, [], rfl, ht⟩
      intro v tree x hv
      exact not_derives_of_rightParen hhead (by decide) hr hv tree

theorem variableRef_accepts : Accepts tokens (n + 7) .variableRef i := by
  have hinner : ∀ l rest, tokensFrom tokens i = l :: rest → l.kind = .leftParen →
      RunsRead (attempt store tokens (n + 4)) tokens
        [(.token .var, Language.single .var), (string, Language.ofProduction .string)] (i + 1) := by
    intro l rest _ _
    exact ⟨Recognizes.token _, fun _ _ _ _ _ => ⟨string_accepts, fun _ _ _ _ _ => trivial⟩⟩
  refine ((Recognizes.parenthesized _ hinner).named).congr fun w tree rest _ => ?_
  constructor
  · intro h
    rcases h with ⟨l, _, _, r, hl, hr, rfl, rfl, _, _, _, _, rfl, rfl, ⟨k, rfl, hk, rfl⟩, v, name,
      _, _, rfl, rfl, hname, rfl, rfl⟩
    simpa [Language.ofProduction] using Derives.variableRef hl hk hname hr
  · intro h
    cases h with
    | @variableRef l k r w name hl hk hname hr =>
      exact ⟨l, [k] ++ w, _, r, hl, hr, by simp, rfl, [k], .token k, w, [name], rfl, rfl,
        ⟨k, rfl, hk, rfl⟩, w, name, [], [], by simp, rfl, hname, rfl, rfl⟩

theorem equality_accepts : Accepts tokens (n + 10) .equality i := by
  have hinner : ∀ l rest, tokensFrom tokens i = l :: rest → l.kind = .leftParen →
      RunsRead (attempt store tokens (n + 7)) tokens
        [(.token .equals, Language.single .equals),
          (variableRef, Language.ofProduction .variableRef),
          (number, Language.ofProduction .number)] (i + 1) := by
    intro l rest _ _
    exact ⟨Recognizes.token _, fun _ _ _ _ _ => ⟨variableRef_accepts, fun _ _ _ _ _ =>
      ⟨number_accepts, fun _ _ _ _ _ => trivial⟩⟩⟩
  refine ((Recognizes.parenthesized _ hinner).named).congr fun w tree rest _ => ?_
  constructor
  · intro h
    rcases h with ⟨l, _, _, r, hl, hr, rfl, rfl, _, _, _, _, rfl, rfl, ⟨k, rfl, hk, rfl⟩, v,
      subject, _, _, rfl, rfl, hsubject, u, value, _, _, rfl, rfl, hvalue, rfl, rfl⟩
    simpa [Language.ofProduction] using Derives.equality hl hk hsubject hvalue hr
  · intro h
    cases h with
    | @equality l k r v w subject value hl hk hsubject hvalue hr =>
      exact ⟨l, [k] ++ (v ++ w), _, r, hl, hr, by simp, rfl, [k], .token k, v ++ w,
        [subject, value], rfl, rfl, ⟨k, rfl, hk, rfl⟩, v, subject, w, [value], rfl, rfl, hsubject,
        w, value, [], [], by simp, rfl, hvalue, rfl, rfl⟩

theorem compound_accepts (hlen : (tokensFrom tokens i).length ≤ n + 7)
    (hcondition : ∀ j, (tokensFrom tokens j).length < (tokensFrom tokens i).length →
      Accepts tokens (n + 7) .condition j) :
    Accepts tokens (n + 12) .compound i := by
  have hinner : ∀ l rest, tokensFrom tokens i = l :: rest → l.kind = .leftParen →
      RunsRead (attempt store tokens (n + 8)) tokens
        [(connective, Language.ofProduction .connective),
          (.many condition, (Language.repeated (Derives .condition)).image .list)] (i + 1) := by
    intro l rest hl _
    have hrest : tokensFrom tokens (i + 1) = rest := tokensFrom_append (w := [l]) hl
    refine ⟨connective_accepts, fun w tree rest' hw hD => ⟨?_, fun _ _ _ _ _ => trivial⟩⟩
    have hw' : tokensFrom tokens (i + 1 + w.length) = rest' := tokensFrom_append hw
    have hshort : rest'.length < (tokensFrom tokens i).length := by
      rw [hl, List.length_cons, ← hrest, hw, List.length_append]
      omega
    refine Recognizes.many (n := n + 7) (fun _ _ h => h.ne_nil) ?_ ?_
    · rw [hw']
      omega
    · intro j hj
      rw [hw'] at hj
      exact hcondition j (Nat.lt_of_le_of_lt hj.length_le hshort)
  refine (((Recognizes.parenthesized _ hinner).transform fun _ => rfl).named).congr
    fun w tree rest _ => ?_
  constructor
  · intro h
    rcases h with ⟨_, ⟨l, _, _, r, hl, hr, rfl, rfl, v, _, _, _, rfl, rfl, hkey, _, _, _, _, rfl,
      rfl, ⟨_, ⟨⟨parts, hparts, rfl, rfl⟩, -⟩, rfl⟩, rfl, rfl⟩, rfl⟩
    obtain ⟨k, rfl, hk, rfl⟩ := derives_connective_iff.1 hkey
    simpa [Tree.consPair, Language.ofProduction] using Derives.compound hl hk hparts hr
  · intro h
    cases h with
    | @compound l k r parts hl hk hparts hr =>
      refine ⟨_, ⟨l, [k] ++ (parts.map Prod.fst).flatten, _, r, hl, hr, by simp, rfl, [k], .token k,
        (parts.map Prod.fst).flatten, [.list (parts.map Prod.snd)], rfl, rfl, .connective hk, _, _,
        [], [], by simp, rfl, ⟨_, ⟨⟨parts, hparts, rfl, rfl⟩, ?_⟩, rfl⟩, rfl, rfl⟩, rfl⟩
      intro v tree x hv
      exact not_derives_of_rightParen (fun _ _ h => h.head_of_condition) (by decide) hr hv tree

/-- The budget grows by eight for each token: a condition within a condition lies eight levels
deeper, and begins behind the parenthesis and the keyword of the outer one. -/
theorem condition_accepts : ∀ (k : Nat) (i : Int), (tokensFrom tokens i).length ≤ k →
    Accepts tokens (8 * k + 15) .condition i := by
  intro k
  induction k with
  | zero =>
    intro i hk
    exact condition_of_shorter (n := 0) (by omega) fun j hj => by omega
  | succ k ih =>
    intro i hk
    exact condition_of_shorter (n := 8 * k + 8) (by omega) fun j hj => ih j (by omega)
where
  condition_of_shorter {n : Nat} {i : Int} (hlen : (tokensFrom tokens i).length ≤ n + 7)
      (hshorter : ∀ j, (tokensFrom tokens j).length < (tokensFrom tokens i).length →
        Accepts tokens (n + 7) .condition j) : Accepts tokens (n + 15) .condition i := by
    have hchoice := (equality_accepts (n := n + 2)).choice (compound_accepts hlen hshorter)
    refine ((hchoice.forward rfl).named).congr fun w tree rest _ => ?_
    refine Iff.trans ?_ derives_condition_iff.symm
    constructor
    · intro h
      rcases h with h | ⟨h, -⟩
      · exact Or.inl h
      · exact Or.inr h
    · intro h
      rcases h with h | h
      · exact Or.inl h
      · refine Or.inr ⟨h, fun v y rest' hv hD => ?_⟩
        obtain ⟨l, k, u, rfl, -, hk⟩ := hD.second_of_equality
        obtain ⟨l', k', u', rfl, -, hk'⟩ := h.second_of_compound
        simp only [List.cons_append, List.cons.injEq] at hv
        rw [← hv.2.1, hk] at hk'
        rcases hk' with hk' | hk' <;> cases hk'

theorem tokensFrom_length_le : (tokensFrom tokens i).length ≤ tokens.size := by
  unfold tokensFrom
  split
  · exact Nat.zero_le _
  · simp

/-- Every production recognises its words within the budget of the grammar. -/
theorem production_accepts (production : Production) :
    Accepts tokens (budget tokens) production i := by
  have hbudget : budget tokens = 16 * tokens.size + 32 := by
    unfold budget
    omega
  have hlen : (tokensFrom tokens i).length ≤ tokens.size := tokensFrom_length_le
  rw [hbudget]
  cases production with
  | number => exact number_accepts
  | string => exact string_accepts
  | valueSet => exact valueSet_accepts (by omega)
  | newState => exact newState_accepts
  | variableRef => exact variableRef_accepts
  | condition => exact (condition_accepts _ _ hlen).mono (by omega)
  | leftParen => exact leftParen_accepts
  | rightParen => exact rightParen_accepts
  | equality => exact equality_accepts
  | connective => exact connective_accepts
  | compound =>
    refine compound_accepts (n := 16 * tokens.size + 20) (by omega) fun j _ => ?_
    exact (condition_accepts _ _ tokensFrom_length_le).mono (by omega)

end Grammar

/-! ## Slices -/

/-- The tokens from the index `i` up to the index `j`. -/
def slice (tokens : Array Token) (i j : Int) : List Token :=
  (tokens.extract i.toNat j.toNat).toList

/-- The production derives the tree from the tokens between two indices. -/
def DerivesAt (production : Production) (tokens : Array Token) (i j : Int) (tree : Tree) : Prop :=
  0 ≤ i ∧ i ≤ j ∧ j ≤ tokens.size ∧ Derives production (slice tokens i j) tree

section
variable {tokens : Array Token} {i j : Int}

theorem length_slice (hi : 0 ≤ i) (hij : i ≤ j) (hj : j ≤ tokens.size) :
    ((slice tokens i j).length : Int) = j - i := by
  simp only [slice, Array.length_toList, Array.size_extract]
  omega

theorem tokensFrom_eq_slice_append (hi : 0 ≤ i) (hij : i ≤ j) :
    tokensFrom tokens i = slice tokens i j ++ tokensFrom tokens j := by
  have hi' : ¬ i < 0 := by omega
  have hj' : ¬ j < 0 := by omega
  have hdrop :
      tokens.toList.drop j.toNat = (tokens.toList.drop i.toNat).drop (j.toNat - i.toNat) := by
    rw [List.drop_drop]
    congr 1
    omega
  rw [tokensFrom, tokensFrom, if_neg hi', if_neg hj', slice, Array.toList_extract,
    List.extract_eq_take_drop, hdrop, List.take_append_drop]

/-- A word at the front of the tokens from an index on is a slice of the tokens. -/
theorem slice_of_tokensFrom {w rest : List Token} (hw : w ≠ [])
    (h : tokensFrom tokens i = w ++ rest) :
    0 ≤ i ∧ i + w.length ≤ tokens.size ∧ slice tokens i (i + w.length) = w := by
  have hpos : 0 < w.length := List.length_pos_iff.2 hw
  have hi : 0 ≤ i := by
    refine Int.not_lt.1 fun hneg => hw ?_
    rw [tokensFrom, if_pos hneg] at h
    exact (List.append_eq_nil_iff.1 h.symm).1
  have hsize : i + w.length ≤ tokens.size := by
    have := congrArg List.length h
    rw [tokensFrom, if_neg (by omega), List.length_drop, Array.length_toList,
      List.length_append] at this
    omega
  refine ⟨hi, hsize, ?_⟩
  have hij : i ≤ i + w.length := by omega
  have hsplit : tokensFrom tokens i = _ := tokensFrom_eq_slice_append hi hij
  have hlen := length_slice hi hij hsize
  exact (List.append_inj (hsplit.symm.trans h) (by omega)).1

end

namespace Production

variable {production : Production} {tokens : Array Token} {i : Int}

theorem run_reads (production : Production) (tokens : Array Token) (i : Int) :
    ∃ a, production.run tokens i = some a ∧
      a.outcome.Reads (Language.ofProduction production) (tokensFrom tokens i) i :=
  Grammar.production_accepts production

theorem outcome?_of_run {a : Attempt} (h : production.run tokens i = some a) :
    production.outcome? tokens i = some a.outcome := by
  rw [outcome?, h, Option.map_some]

theorem outcome?_eq_matched_iff {tree : Tree} {j : Int} :
    production.outcome? tokens i = some (.matched tree j) ↔
      DerivesAt production tokens i j tree := by
  obtain ⟨a, ha, hreads⟩ := run_reads production tokens i
  rw [outcome?_of_run ha, Option.some.injEq, hreads.2 tree j]
  constructor
  · intro h
    rcases h with ⟨w, rest, hw, rfl, hD⟩
    obtain ⟨hi, hsize, hslice⟩ := slice_of_tokensFrom hD.ne_nil hw
    exact ⟨hi, by omega, hsize, hslice.symm ▸ hD⟩
  · intro h
    rcases h with ⟨hi, hij, hj, hD⟩
    have hlen := length_slice hi hij hj
    exact ⟨_, _, tokensFrom_eq_slice_append hi hij, by omega, hD⟩

/-- A production matches or fails: its run stays within the budget, and no error ends it. -/
theorem outcome?_eq_matched_or_failed (production : Production) (tokens : Array Token) (i : Int) :
    (∃ tree j, production.outcome? tokens i = some (.matched tree j)) ∨
      production.outcome? tokens i = some .failed := by
  obtain ⟨a, ha, hreads⟩ := run_reads production tokens i
  rw [outcome?_of_run ha]
  cases ho : a.outcome with
  | matched tree j => exact Or.inl ⟨tree, j, rfl⟩
  | failed => exact Or.inr rfl
  | raised e => exact absurd ho (hreads.1 e)

theorem outcome?_eq_failed (h : ∀ tree j, ¬ DerivesAt production tokens i j tree) :
    production.outcome? tokens i = some .failed := by
  rcases outcome?_eq_matched_or_failed production tokens i with ⟨tree, j, hmatched⟩ | hfailed
  · exact absurd (outcome?_eq_matched_iff.1 hmatched) (h tree j)
  · exact hfailed

/-- A word is read alike wherever it stands. -/
theorem outcome?_of_context {w : List Token} {tree : Tree} (hD : Derives production w tree)
    (before after : List Token) :
    production.outcome? (before ++ w ++ after).toArray before.length =
      some (.matched tree (before.length + w.length)) := by
  obtain ⟨a, ha, hreads⟩ := run_reads production (before ++ w ++ after).toArray before.length
  rw [outcome?_of_run ha, Option.some.injEq, hreads.2]
  refine ⟨w, after, ?_, rfl, hD⟩
  rw [tokensFrom, if_neg (by omega), Int.toNat_natCast, List.toList_toArray, List.append_assoc,
    List.drop_left]

/-- Every production accepts exactly the words of the grammar, at every index of any tokens: its run
ends, whatever the budget beyond that of the grammar; it matches a tree up to an index just where
the grammar derives the tree from the tokens in between, and fails where there is no such tree. The
tree and the index are the only ones, and the same tokens give the same tree in any other place. -/
theorem run_accepts_exactly (production : Production) (tokens : Array Token) (i : Int) :
    (∃ a, production.run tokens i = some a ∧ ∀ n, Grammar.budget tokens ≤ n →
      production.parser.attempt Grammar.store tokens n i = some a) ∧
    (∀ tree j, production.outcome? tokens i = some (.matched tree j) ↔
      DerivesAt production tokens i j tree) ∧
    ((∀ tree j, ¬ DerivesAt production tokens i j tree) →
      production.outcome? tokens i = some .failed) ∧
    (∀ tree j tree' j', DerivesAt production tokens i j tree →
      DerivesAt production tokens i j' tree' → tree = tree' ∧ j = j') ∧
    (∀ tree j, DerivesAt production tokens i j tree → ∀ before after : List Token,
      production.outcome? (before ++ slice tokens i j ++ after).toArray before.length =
        some (.matched tree (before.length + (j - i)))) := by
  refine ⟨?_, fun _ _ => outcome?_eq_matched_iff, outcome?_eq_failed, ?_, ?_⟩
  · obtain ⟨a, ha, -⟩ := run_reads production tokens i
    exact ⟨a, ha, fun n hn => attempt_mono hn ha⟩
  · intro tree j tree' j' h h'
    have := (outcome?_eq_matched_iff.2 h).symm.trans (outcome?_eq_matched_iff.2 h')
    simpa using this
  · intro tree j h before after
    rcases h with ⟨hi, hij, hj, hD⟩
    rw [outcome?_of_context hD before after, length_slice hi hij hj]

end Production

end Conditions
