import Conditions.Proofs.Budget

/-!
# Languages that parsers recognise

A language says which words of tokens stand for which values, and in front of which other tokens. A
parser recognises a language at an index if it matches exactly where a word of the language begins
there, with the value and the length of the word. The rules below build the language of a parser
from the languages of its parts; as each of them says what happens in both directions, no word is
ambiguous.
-/

namespace Conditions

/-- The tokens from an index on. There are none where the index is out of range. -/
def tokensFrom (tokens : Array Token) (i : Int) : List Token :=
  if i < 0 then [] else tokens.toList.drop i.toNat

section
variable {tokens : Array Token} {i : Int}

theorem tokenAt?_eq_head? : tokenAt? tokens i = (tokensFrom tokens i).head? := by
  unfold tokenAt? tokensFrom
  split
  · rfl
  · rw [List.head?_drop, Array.getElem?_toList]

theorem tokensFrom_append {w rest : List Token} (h : tokensFrom tokens i = w ++ rest) :
    tokensFrom tokens (i + w.length) = rest := by
  cases w with
  | nil => simpa using h
  | cons t w =>
    have hi : ¬ i < 0 := by
      intro hi
      simp [tokensFrom, hi] at h
    have hj : ¬ i + (t :: w).length < 0 := by omega
    have hn : (i + (t :: w).length).toNat = i.toNat + (t :: w).length := by omega
    rw [tokensFrom, if_neg hi] at h
    rw [tokensFrom, if_neg hj, hn, ← List.drop_drop, h, List.drop_left]

end

/-- Words of tokens with the values they stand for, and the tokens that follow them. -/
abbrev Language (α : Type) := List Token → α → List Token → Prop

namespace Language

/-- One token of the kind. -/
def single (kind : TokenKind) : Language Tree :=
  fun w tree _ => ∃ t, w = [t] ∧ t.kind = kind ∧ tree = .token t

/-- The words of a language with their values put through a function. -/
def image {α β : Type} (f : α → β) (L : Language α) : Language β :=
  fun w y rest => ∃ x, L w x rest ∧ y = f x

/-- Words of the languages, one behind the other. -/
def inTurn : List (Language Tree) → Language (List Tree)
  | [], w, trees, _ => w = [] ∧ trees = []
  | L :: Ls, w, trees, rest =>
    ∃ w₁ tree w₂ trees₂, w = w₁ ++ w₂ ∧ trees = tree :: trees₂ ∧ L w₁ tree (w₂ ++ rest) ∧
      inTurn Ls w₂ trees₂ rest

/-- Words with their values in a row, as many as there are in front of the other tokens. -/
def repeated (D : List Token → Tree → Prop) : Language (List Tree) :=
  fun w trees rest =>
    (∃ parts : List (List Token × Tree), (∀ part ∈ parts, D part.1 part.2) ∧
      w = (parts.map Prod.fst).flatten ∧ trees = parts.map Prod.snd) ∧
    ∀ v tree x, rest = v ++ x → ¬ D v tree

/-- The words of the first language, and those of the second where no word of the first begins. -/
def orElse {α : Type} (L M : Language α) : Language α :=
  fun w x rest => L w x rest ∨
    (M w x rest ∧ ∀ v y rest', v ++ rest' = w ++ rest → ¬ L v y rest')

end Language

/-- The outcome of a run at `i`, where the tokens go on with `input`, is that a word of the language
has been read, or that there is none. -/
def Outcome.Reads {α : Type} (o : Outcome α) (L : Language α) (input : List Token) (i : Int) :
    Prop :=
  (∀ e, o ≠ .raised e) ∧
    ∀ x j, o = .matched x j ↔ ∃ w rest, input = w ++ rest ∧ j = i + w.length ∧ L w x rest

namespace Outcome.Reads

variable {α β : Type} {o : Outcome α} {L M : Language α} {input : List Token} {i : Int}

theorem congr (h : o.Reads L input i)
    (hLM : ∀ w x rest, input = w ++ rest → (L w x rest ↔ M w x rest)) : o.Reads M input i := by
  refine ⟨h.1, fun x j => (h.2 x j).trans ?_⟩
  constructor
  · intro hword
    rcases hword with ⟨w, rest, hw, hj, hL⟩
    exact ⟨w, rest, hw, hj, (hLM w x rest hw).1 hL⟩
  · intro hword
    rcases hword with ⟨w, rest, hw, hj, hM⟩
    exact ⟨w, rest, hw, hj, (hLM w x rest hw).2 hM⟩

theorem map (f : α → β) (h : o.Reads L input i) : (o.map f).Reads (L.image f) input i := by
  constructor
  · intro e he
    cases o with
    | raised e' => exact h.1 e' rfl
    | matched x j => simp [Outcome.map] at he
    | failed => simp [Outcome.map] at he
  · intro y j
    constructor
    · intro hy
      cases o with
      | matched x k =>
        simp only [Outcome.map, matched.injEq] at hy
        obtain ⟨rfl, rfl⟩ := hy
        obtain ⟨w, rest, hw, hj, hL⟩ := (h.2 x k).1 rfl
        exact ⟨w, rest, hw, hj, x, hL, rfl⟩
      | failed => simp [Outcome.map] at hy
      | raised e => simp [Outcome.map] at hy
    · intro hword
      rcases hword with ⟨w, rest, hw, hj, x, hL, rfl⟩
      rw [(h.2 x j).2 ⟨w, rest, hw, hj, hL⟩]
      rfl

/-- A run that fails has no word of the language in front of it. -/
theorem not_of_failed (h : Outcome.failed.Reads L input i) {w rest : List Token} {x : α}
    (hw : input = w ++ rest) : ¬ L w x rest := by
  intro hL
  have := (h.2 x _).2 ⟨w, rest, hw, rfl, hL⟩
  cases this

theorem of_none (h : ∀ w x rest, input = w ++ rest → ¬ L w x rest) :
    Outcome.failed.Reads L input i := by
  refine ⟨fun e h => (by cases h), fun x j => ⟨fun h => (by cases h), ?_⟩⟩
  intro hword
  rcases hword with ⟨w, rest, hw, -, hL⟩
  exact absurd hL (h w x rest hw)

/-- Words that begin at one place and are read by one run are the same. -/
theorem unique {x y : α} {j : Int} (h : (Outcome.matched x j).Reads L input i)
    {w rest : List Token} (hw : input = w ++ rest) (hL : L w y rest) :
    y = x ∧ j = i + w.length := by
  have := (h.2 y _).2 ⟨w, rest, hw, rfl, hL⟩
  simp only [matched.injEq] at this
  exact ⟨this.1.symm, this.2⟩

end Outcome.Reads

namespace Parser

section
variable (run : Parser → Int → Option Attempt) (tokens : Array Token)

/-- The run of a parser at an index ends, and reads a language. -/
def RunReads (p : Parser) (L : Language Tree) (i : Int) : Prop :=
  ∃ a, run p i = some a ∧ a.outcome.Reads L (tokensFrom tokens i) i

/-- The runs of parsers in a row end and read their languages, each where the one before ended. -/
def RunsRead : List (Parser × Language Tree) → Int → Prop
  | [], _ => True
  | (p, L) :: steps, i => RunReads run tokens p L i ∧
    ∀ w tree rest, tokensFrom tokens i = w ++ rest → L w tree rest → RunsRead steps (i + w.length)

variable {run tokens}

theorem runSequence_reads : ∀ (steps : List (Parser × Language Tree)) (i : Int),
    RunsRead run tokens steps i →
      ∃ s, runSequence run (steps.map Prod.fst) i = some s ∧
        s.outcome.Reads (Language.inTurn (steps.map Prod.snd)) (tokensFrom tokens i) i := by
  intro steps
  induction steps with
  | nil =>
    intro i _
    refine ⟨_, rfl, fun e h => (by cases h), fun trees j => ?_⟩
    constructor
    · intro h
      cases h
      exact ⟨[], tokensFrom tokens i, rfl, by simp, rfl, rfl⟩
    · intro h
      rcases h with ⟨w, rest, -, rfl, rfl, rfl⟩
      simp [Stretch.done]
  | cons step steps ih =>
    obtain ⟨p, L⟩ := step
    intro i h
    rcases h with ⟨⟨a, ha, hL⟩, hsteps⟩
    simp only [List.map_cons, runSequence, ha, Option.bind_eq_bind, Option.bind_some]
    cases ho : a.outcome with
    | raised e => exact absurd ho (hL.1 e)
    | failed =>
      rw [ho] at hL
      refine ⟨⟨[a], .failed⟩, by simp [Stretch.andThen, Stretch.single, ho], .of_none ?_⟩
      intro w trees rest hw h
      rcases h with ⟨w₁, tree, w₂, trees₂, rfl, rfl, h₁, -⟩
      exact hL.not_of_failed (hw.trans (List.append_assoc ..)) h₁
    | matched tree j =>
      rw [ho] at hL
      obtain ⟨w, rest, hw, rfl, hLw⟩ := (hL.2 tree j).1 rfl
      obtain ⟨s, hs, hR⟩ := ih _ (hsteps w tree rest hw hLw)
      rw [tokensFrom_append hw] at hR
      refine ⟨⟨a :: s.attempts, s.outcome.map (tree :: ·)⟩, ?_, ?_, ?_⟩
      · simp [Stretch.andThen, Stretch.single, ho, hs, Stretch.map]
      · exact (hR.map (tree :: ·)).1
      · intro trees k
        rw [(hR.map (tree :: ·)).2 trees k]
        constructor
        · intro h
          rcases h with ⟨w₂, rest₂, rfl, rfl, trees₂, hw₂, rfl⟩
          refine ⟨w ++ w₂, rest₂, by rw [hw, List.append_assoc], ?_, w, tree, w₂, trees₂, rfl, rfl,
            hLw, hw₂⟩
          simp only [List.length_append]
          omega
        · intro h
          rcases h with ⟨v, rest₂, hv, rfl, w₁, tree', w₂, trees₂, rfl, rfl, h₁, h₂⟩
          -- The run has read `w`, so the word that begins here is no other one.
          rw [List.append_assoc] at hv
          obtain ⟨rfl, hlen⟩ := hL.unique hv h₁
          have heq : w ++ rest = w₁ ++ (w₂ ++ rest₂) := hw.symm.trans hv
          obtain ⟨rfl, rfl⟩ := List.append_inj heq (by omega)
          refine ⟨w₂, rest₂, rfl, ?_, trees₂, h₂, rfl⟩
          simp only [List.length_append]
          omega

theorem runMany_reads {D : List Token → Tree → Prop} {p : Parser}
    (hD : ∀ w tree, D w tree → w ≠ []) :
    ∀ (rounds : Nat) (i : Int), (tokensFrom tokens i).length < rounds →
      (∀ j, tokensFrom tokens j <:+ tokensFrom tokens i →
        RunReads run tokens p (fun w tree _ => D w tree) j) →
      ∃ s, runMany run p rounds i = some s ∧
        s.outcome.Reads (Language.repeated D) (tokensFrom tokens i) i := by
  intro rounds
  induction rounds with
  | zero => intro i h; omega
  | succ rounds ih =>
    intro i hlen hp
    obtain ⟨a, ha, hL⟩ := hp i (List.suffix_refl _)
    simp only [runMany, ha, Option.bind_eq_bind, Option.bind_some]
    cases ho : a.outcome with
    | raised e => exact absurd ho (hL.1 e)
    | failed =>
      rw [ho] at hL
      refine ⟨⟨[a], .matched [] i⟩, rfl, fun e h => (by cases h), fun trees j => ?_⟩
      constructor
      · intro h
        cases h
        refine ⟨[], tokensFrom tokens i, rfl, by simp, ⟨[], List.forall_mem_nil _, rfl, rfl⟩, ?_⟩
        intro v tree x hv
        exact hL.not_of_failed hv
      · intro h
        rcases h with ⟨w, rest, hw, rfl, ⟨parts, hparts, rfl, rfl⟩, -⟩
        cases parts with
        | nil => simp
        | cons part parts =>
          rw [List.map_cons, List.flatten_cons, List.append_assoc] at hw
          exact absurd (hparts part (by simp)) (hL.not_of_failed hw)
    | matched tree j =>
      rw [ho] at hL
      obtain ⟨w, rest, hw, rfl, hDw⟩ := (hL.2 tree j).1 rfl
      have hpos : 0 < w.length := List.length_pos_iff.2 (hD _ _ hDw)
      have hrest : tokensFrom tokens (i + w.length) = rest := tokensFrom_append hw
      have hsuffix : rest <:+ tokensFrom tokens i := ⟨w, hw.symm⟩
      have hshorter : rest.length < rounds := by
        have := congrArg List.length hw
        simp only [List.length_append] at this
        omega
      obtain ⟨s, hs, hR⟩ := ih (i + w.length) (by rwa [hrest])
        (fun k hk => hp k ((hrest ▸ hk).trans hsuffix))
      rw [hrest] at hR
      have hmove : i + (w.length : Int) ≠ i := by omega
      refine ⟨⟨a :: s.attempts, s.outcome.map (tree :: ·)⟩, ?_, ?_, ?_⟩
      · simp [hmove, hs]
      · exact (hR.map (tree :: ·)).1
      · intro trees k
        rw [(hR.map (tree :: ·)).2 trees k]
        constructor
        · intro h
          rcases h with ⟨w₂, rest₂, rfl, rfl, trees₂, ⟨⟨parts, hparts, rfl, rfl⟩, hnone⟩, rfl⟩
          refine ⟨w ++ (parts.map Prod.fst).flatten, rest₂, by rw [hw, List.append_assoc], ?_,
            ⟨(w, tree) :: parts, ?_, rfl, rfl⟩, hnone⟩
          · simp only [List.length_append]
            omega
          · exact List.forall_mem_cons.2 ⟨hDw, hparts⟩
        · intro h
          rcases h with ⟨v, rest₂, hv, rfl, ⟨parts, hparts, rfl, rfl⟩, hnone⟩
          cases parts with
          | nil => exact absurd hDw (hnone w tree rest (by simpa using hv.symm.trans hw))
          | cons part parts =>
            -- As above, the first of the words is the one that the run has read.
            obtain ⟨hpart, hparts⟩ := List.forall_mem_cons.1 hparts
            simp only [List.map_cons, List.flatten_cons, List.append_assoc] at hv
            obtain ⟨rfl, hlen⟩ := hL.unique hv hpart
            have heq : w ++ rest = part.1 ++ ((parts.map Prod.fst).flatten ++ rest₂) :=
              hw.symm.trans hv
            obtain ⟨hw₁, rfl⟩ := List.append_inj heq (by omega)
            refine ⟨_, rest₂, rfl, ?_, _, ⟨⟨parts, hparts, rfl, rfl⟩, hnone⟩, rfl⟩
            simp only [List.map_cons, List.flatten_cons, List.length_append]
            omega

theorem runChoice_reads {p q : Parser} {L M : Language Tree} {i : Int}
    (hp : RunReads run tokens p L i) (hq : RunReads run tokens q M i) :
    ∃ s, runChoice run [p, q] i = some s ∧
      s.outcome.Reads (L.orElse M) (tokensFrom tokens i) i := by
  obtain ⟨a, ha, hL⟩ := hp
  obtain ⟨b, hb, hM⟩ := hq
  simp only [runChoice, ha, hb, Option.bind_eq_bind, Option.bind_some]
  cases ho : a.outcome with
  | raised e => exact absurd ho (hL.1 e)
  | matched tree j =>
    rw [ho] at hL
    refine ⟨⟨[a], .matched tree j⟩, rfl, hL.congr ?_⟩
    intro w x rest hw
    constructor
    · exact Or.inl
    · intro h
      rcases h with h | ⟨-, hnone⟩
      · exact h
      · obtain ⟨v, rest', hv, -, hLv⟩ := (hL.2 tree j).1 rfl
        exact absurd hLv (hnone v tree rest' (hv.symm.trans hw))
  | failed =>
    rw [ho] at hL
    refine ⟨⟨[a, b], b.outcome⟩, ?_, hM.congr ?_⟩
    · cases b.outcome <;> simp [Stretch.done]
    · intro w x rest hw
      constructor
      · intro h
        exact Or.inr ⟨h, fun v y rest' hv => hL.not_of_failed (hw.trans hv.symm)⟩
      · intro h
        rcases h with h | ⟨h, -⟩
        · exact absurd h (hL.not_of_failed hw)
        · exact h

end

/-- A parser recognises a language at an index within a budget. -/
def Recognizes (store : Store) (tokens : Array Token) (n : Nat) (p : Parser) (L : Language Tree)
    (i : Int) : Prop :=
  RunReads (attempt store tokens n) tokens p L i

namespace Recognizes

variable {store : Store} {tokens : Array Token} {n : Nat} {p q : Parser} {L M : Language Tree}
  {i : Int}

theorem mono {m : Nat} (hle : n ≤ m) (h : Recognizes store tokens n p L i) :
    Recognizes store tokens m p L i := by
  obtain ⟨a, ha, hL⟩ := h
  exact ⟨a, attempt_mono hle ha, hL⟩

theorem congr (h : Recognizes store tokens n p L i)
    (hLM : ∀ w x rest, tokensFrom tokens i = w ++ rest → (L w x rest ↔ M w x rest)) :
    Recognizes store tokens n p M i := by
  obtain ⟨a, ha, hL⟩ := h
  exact ⟨a, ha, hL.congr hLM⟩

/-- What a step reads, the run that takes it recognises. -/
theorem of_step {s : Stretch Tree} (hs : p.step (attempt store tokens n) store tokens n i = some s)
    (hL : s.outcome.Reads L (tokensFrom tokens i) i) : Recognizes store tokens (n + 1) p L i :=
  ⟨⟨p, i, s.attempts, s.outcome⟩, by simp [attempt, hs], hL⟩

theorem elem (kind : TokenKind) :
    Recognizes store tokens (n + 1) (.elem kind) (Language.single kind) i := by
  cases h : tokensFrom tokens i with
  | nil =>
    refine of_step (s := .done .failed) (by simp [step, tokenAt?_eq_head?, h]) (.of_none ?_)
    intro w tree rest hw h
    rcases h with ⟨t, rfl, -, -⟩
    simp [h] at hw
  | cons t rest =>
    refine of_step (s := .done (if t.kind = kind then .matched (.token t) (i + 1) else .failed))
      (by simp [step, tokenAt?_eq_head?, h]) ?_
    simp only [Stretch.done]
    split
    · next hk =>
      refine ⟨fun e h => (by cases h), fun tree j => ?_⟩
      simp only [Outcome.matched.injEq, h]
      constructor
      · intro h
        rcases h with ⟨rfl, rfl⟩
        exact ⟨[t], rest, rfl, rfl, t, rfl, hk, rfl⟩
      · intro h
        rcases h with ⟨w, rest', hw, rfl, t', rfl, -, rfl⟩
        simp only [List.cons_append, List.nil_append, List.cons.injEq] at hw
        simp [hw.1]
    · next hk =>
      refine .of_none ?_
      intro w tree rest' hw h
      rcases h with ⟨t', rfl, hk', -⟩
      simp only [h, List.cons_append, List.nil_append, List.cons.injEq] at hw
      exact hk (hw.1 ▸ hk')

theorem named {name : String} (h : Recognizes store tokens n p L i) :
    Recognizes store tokens (n + 1) (.named name p) L i := by
  obtain ⟨a, ha, hL⟩ := h
  exact of_step (s := .single a) (by simp [step, ha]) hL

theorem token (kind : TokenKind) :
    Recognizes store tokens (n + 2) (.token kind) (Language.single kind) i :=
  (elem kind).named

theorem forward {place : Nat} {name? : Option String}
    (hstore : store[place]? = some ⟨name?, some p⟩) (h : Recognizes store tokens n p L i) :
    Recognizes store tokens (n + 1) (.forward place) L i := by
  obtain ⟨a, ha, hL⟩ := h
  exact of_step (s := .single a) (by simp [step, hstore, ha]) hL

theorem transform {f : Tree → Except Refusal Tree} {g : Tree → Tree}
    (hf : ∀ tree, f tree = .ok (g tree)) (h : Recognizes store tokens n p L i) :
    Recognizes store tokens (n + 1) (.transform p f) (L.image g) i := by
  obtain ⟨a, ha, hL⟩ := h
  refine of_step (s := ⟨[a], a.outcome.map g⟩) ?_ (hL.map g)
  simp [step, ha, Stretch.refine, Stretch.single, Outcome.refine_eq_map hf]

theorem sequence (steps : List (Parser × Language Tree))
    (h : RunsRead (attempt store tokens n) tokens steps i) :
    Recognizes store tokens (n + 1) (.sequence (steps.map Prod.fst))
      ((Language.inTurn (steps.map Prod.snd)).image .list) i := by
  obtain ⟨s, hs, hL⟩ := runSequence_reads steps i h
  exact of_step (s := s.map Tree.list) (by simp [step, hs]) (hL.map Tree.list)

theorem many {D : List Token → Tree → Prop} (hD : ∀ w tree, D w tree → w ≠ [])
    (hlen : (tokensFrom tokens i).length < n)
    (h : ∀ j, tokensFrom tokens j <:+ tokensFrom tokens i →
      Recognizes store tokens n p (fun w tree _ => D w tree) j) :
    Recognizes store tokens (n + 1) (.many p) ((Language.repeated D).image .list) i := by
  obtain ⟨s, hs, hL⟩ := runMany_reads hD n i hlen h
  exact of_step (s := s.map Tree.list) (by simp [step, hs]) (hL.map Tree.list)

theorem choice (hp : Recognizes store tokens n p L i) (hq : Recognizes store tokens n q M i) :
    Recognizes store tokens (n + 1) (.choice [p, q]) (L.orElse M) i := by
  obtain ⟨s, hs, hL⟩ := runChoice_reads hp hq
  exact of_step hs hL

end Recognizes

end Parser

end Conditions
