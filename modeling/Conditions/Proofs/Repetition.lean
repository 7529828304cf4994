import Conditions.Proofs.Indices

/-!
# Repetition

A repetition runs its parser where it begins, and again behind every match that goes further on, up
to the first index at which the parser fails or stays where it is. The rounds that count are thus a
chain of matches, each of which begins where the one before it ends.

If the parser returns wherever it is run, there is exactly one such chain from each index. It is no
longer than what is left of the tokens, and the repetition matches with the trees of its rounds.
-/

namespace Conditions

/-- What is reached and is not where one was lies behind it, among the tokens. -/
theorem Onward.of_ne {tokens : Array Token} {i j : Int} (h : Onward tokens i j) (hne : j ≠ i) :
    i < j ∧ j ≤ tokens.size := by
  have hle := h.le
  have hrange : ¬ (i < 0 ∨ tokens.size < i) := fun hout => hne (h.stays hout)
  have hsize := h.le_size (by omega) (by omega)
  omega

namespace Parser

/-- A round of a repetition: the tree of the match and the index behind it. -/
structure Round where
  tree : Tree
  stop : Int

section
variable (store : Store) (tokens : Array Token)

/-- The run ends, and not with an error. -/
def Returns (p : Parser) (i : Int) : Prop :=
  ∃ o, Ends store tokens p i o ∧ ∀ e, o ≠ .raised e

/-- The run fails, or it matches and stays where it is. -/
def Rests (p : Parser) (i : Int) : Prop :=
  Ends store tokens p i .failed ∨ ∃ tree, Ends store tokens p i (.matched tree i)

/-- From the index on, the parser matches further on in each of the rounds, and then rests. -/
inductive Rounds (p : Parser) : Int → List Round → Prop where
  | rest {i : Int} : Rests store tokens p i → Rounds p i []
  | next {i j : Int} {tree : Tree} {rounds : List Round} :
      Ends store tokens p i (.matched tree j) → i < j → Rounds p j rounds →
      Rounds p i (⟨tree, j⟩ :: rounds)

end

section
variable {store : Store} {tokens : Array Token} {p : Parser} {i : Int} {rounds rounds' : List Round}

theorem Ends.unique {o o' : Outcome Tree} (h : Ends store tokens p i o)
    (h' : Ends store tokens p i o') : o = o' := by
  obtain ⟨n, a, ha, rfl⟩ := h
  exact (ends_iff ha).mp h'

/-- A parser that returns either rests or matches somewhere else. -/
theorem Returns.rests_or_moves (h : Returns store tokens p i) :
    Rests store tokens p i ∨ ∃ tree j, Ends store tokens p i (.matched tree j) ∧ j ≠ i := by
  obtain ⟨o, hends, hraised⟩ := h
  cases o with
  | failed => exact .inl (.inl hends)
  | raised e => exact absurd rfl (hraised e)
  | matched tree j =>
    by_cases hj : j = i
    · subst hj
      exact .inl (.inr ⟨tree, hends⟩)
    · exact .inr ⟨tree, j, hends, hj⟩

theorem Rests.not_moves (h : Rests store tokens p i) {tree : Tree} {j : Int}
    (hends : Ends store tokens p i (.matched tree j)) : j = i := by
  rcases h with hfailed | ⟨tree', hstays⟩
  · cases hends.unique hfailed
  · cases hends.unique hstays
    rfl

/-! ### The chain of rounds -/

theorem Rounds.unique (h : Rounds store tokens p i rounds) (h' : Rounds store tokens p i rounds') :
    rounds = rounds' := by
  induction h generalizing rounds' with
  | rest hrests =>
    cases h' with
    | rest _ => rfl
    | next hends hlt _ => exact absurd (hrests.not_moves hends) (by omega)
  | next hends hlt _ ih =>
    cases h' with
    | rest hrests => exact absurd (hrests.not_moves hends) (by omega)
    | next hends' _ hrounds =>
      cases hends.unique hends'
      rw [ih hrounds]

/-- There is a chain from every index. The induction is on what is left of the tokens, of which
every round takes something. -/
theorem exists_rounds (hstore : store.jumpless) (hp : p.jumpless)
    (hreturns : ∀ k, Returns store tokens p k) (i : Int) :
    ∃ rounds, Rounds store tokens p i rounds := by
  induction hleft : (tokens.size - i).toNat using Nat.strongRecOn generalizing i with
  | ind left ih =>
    rcases (hreturns i).rests_or_moves with hrests | ⟨tree, j, hends, hne⟩
    · exact ⟨[], .rest hrests⟩
    · obtain ⟨hlt, hsize⟩ := (hends.onward hstore hp).of_ne hne
      obtain ⟨rounds, hrounds⟩ := ih (tokens.size - j).toNat (by omega) j rfl
      exact ⟨⟨tree, j⟩ :: rounds, .next hends hlt hrounds⟩

/-- There are no more rounds than tokens are left. -/
theorem Rounds.length_le (hstore : store.jumpless) (hp : p.jumpless)
    (h : Rounds store tokens p i rounds) (hsize : i ≤ tokens.size) :
    i + rounds.length ≤ tokens.size := by
  induction h with
  | rest _ => simpa using hsize
  | next hends hlt _ ih =>
    obtain ⟨-, hj⟩ := (hends.onward hstore hp).of_ne (Int.ne_of_gt hlt)
    have := ih hj
    rw [List.length_cons]
    omega

theorem Rounds.eq_nil (hstore : store.jumpless) (hp : p.jumpless)
    (h : Rounds store tokens p i rounds) (hrange : i < 0 ∨ tokens.size < i) : rounds = [] := by
  cases h with
  | rest _ => rfl
  | next hends hlt _ =>
    have := (hends.onward hstore hp).stays hrange
    omega

/-! ### The run of a repetition -/

/-- A repetition makes the rounds of the chain and one run more, in which its parser rests. -/
theorem Rounds.exists_runMany (h : Rounds store tokens p i rounds) :
    ∃ n s, runMany (attempt store tokens n) p n i = some s ∧
      s.outcome = .matched (rounds.map Round.tree) ((rounds.map Round.stop).getLastD i) ∧
      s.attempts.map (fun b => (b.parser, b.index)) = (i :: rounds.map Round.stop).map (p, ·) := by
  induction h with
  | @rest i hrests =>
    obtain ⟨n, a, ha, hstop⟩ : ∃ n a, attempt store tokens n p i = some a ∧
        (a.outcome = .failed ∨ ∃ tree, a.outcome = .matched tree i) := by
      rcases hrests with ⟨n, a, ha, ho⟩ | ⟨tree, n, a, ha, ho⟩
      · exact ⟨n, a, ha, .inl ho⟩
      · exact ⟨n, a, ha, .inr ⟨tree, ho⟩⟩
    obtain ⟨-, hparser, hindex⟩ := (eq_iff_of_attempt ha).mp rfl
    refine ⟨n + 1, ⟨[a], .matched [] i⟩, ?_, rfl, by simp [hparser, hindex]⟩
    rw [runMany, attempt_mono (Nat.le_succ n) ha]
    rcases hstop with ho | ⟨tree, ho⟩ <;> simp [ho]
  | @next i j tree rounds hends hlt _ ih =>
    obtain ⟨n, a, ha, ho⟩ := hends
    obtain ⟨m, s, hs, hmatched, hattempts⟩ := ih
    obtain ⟨-, hparser, hindex⟩ := (eq_iff_of_attempt ha).mp rfl
    have hrest : runMany (attempt store tokens (max n m + 1)) p (max n m) j = some s :=
      runMany_extends (attempt_extends (by omega)) p (Nat.le_max_right n m) j s hs
    refine ⟨max n m + 1, ⟨a :: s.attempts, s.outcome.map (tree :: ·)⟩, ?_, ?_, ?_⟩
    · rw [runMany, attempt_mono (by omega) ha]
      simp [ho, Int.ne_of_gt hlt, hrest]
    · rw [hmatched, List.map_cons, List.map_cons, List.getLastD_cons]
      rfl
    · simp [hattempts, hparser, hindex]

/-- With any budget that is large enough, a repetition makes the rounds of the chain. -/
theorem Rounds.exists_attempt (h : Rounds store tokens p i rounds) :
    ∃ n a, (∀ m, n ≤ m → attempt store tokens m (.many p) i = some a) ∧
      a.outcome = .matched (.list (rounds.map Round.tree)) ((rounds.map Round.stop).getLastD i) ∧
      a.nested.map (fun b => (b.parser, b.index)) = (i :: rounds.map Round.stop).map (p, ·) := by
  obtain ⟨n, s, hs, hmatched, hattempts⟩ := h.exists_runMany
  refine ⟨n + 1, ⟨.many p, i, s.attempts, s.outcome.map .list⟩, fun m hm => ?_, ?_, hattempts⟩
  · refine attempt_mono hm ?_
    simp only [attempt, step, hs, Option.map_some, Stretch.map]
  · simp [hmatched, Outcome.map]

theorem returns_many (hstore : store.jumpless) (hp : p.jumpless)
    (hreturns : ∀ k, Returns store tokens p k) (i : Int) : Returns store tokens (.many p) i := by
  obtain ⟨rounds, hrounds⟩ := exists_rounds hstore hp hreturns i
  obtain ⟨n, a, ha, ho, -⟩ := hrounds.exists_attempt
  refine ⟨a.outcome, ⟨n, a, ha n (Nat.le_refl n), rfl⟩, fun e he => ?_⟩
  cases ho.symm.trans he

theorem returns_token (kind : TokenKind) (i : Int) : Returns store tokens (token kind) i := by
  cases ht : tokenAt? tokens i with
  | none =>
    refine ⟨.failed, ⟨2, _, by simp only [token, attempt, step, ht]; rfl, rfl⟩, fun e he => ?_⟩
    cases he
  | some t =>
    refine ⟨_, ⟨2, _, by simp only [token, attempt, step, ht]; rfl, rfl⟩, fun e he => ?_⟩
    simp only [Stretch.done] at he
    split at he <;> cases he

/-- A repetition is maximal and greedy. If its parser returns at every index, it returns as well. It
matches with the trees of the only chain of rounds that begins where it does, up to the index where
the chain ends. It runs its parser once where each round begins and once where the last one ends, in
this order, and makes no more rounds than tokens are left. -/
theorem many_repeats_greedily (hstore : store.jumpless) (hp : p.jumpless)
    (hreturns : ∀ k, Returns store tokens p k) (i : Int) :
    ∃ rounds, (∀ rounds', Rounds store tokens p i rounds' ↔ rounds' = rounds) ∧
      (∃ n a, (∀ m, n ≤ m → attempt store tokens m (.many p) i = some a) ∧
        a.outcome =
          .matched (.list (rounds.map Round.tree)) ((rounds.map Round.stop).getLastD i) ∧
        a.nested.map (fun b => (b.parser, b.index)) =
          (i :: rounds.map Round.stop).map (p, ·)) ∧
      (0 ≤ i → i ≤ tokens.size → rounds.length ≤ tokens.size - i) ∧
      (i < 0 ∨ tokens.size < i → rounds = []) := by
  obtain ⟨rounds, hrounds⟩ := exists_rounds hstore hp hreturns i
  refine ⟨rounds, fun rounds' => ⟨fun h => h.unique hrounds, fun h => h ▸ hrounds⟩,
    hrounds.exists_attempt, fun _ hsize => ?_, hrounds.eq_nil hstore hp⟩
  have := hrounds.length_le hstore hp hsize
  omega

end

theorem many_repeats_greedily_nested :
    let t : Token := ⟨.number, "1", .number (.integer 1), none⟩
    let tokens : Array Token := #[t, t, ⟨.string, "a", .text "a", none⟩]
    let p : Parser := .many (token .number)
    Store.jumpless [] ∧ p.jumpless ∧ (∀ k, Returns [] tokens p k) ∧
      (∀ rounds, Rounds [] tokens p 0 rounds ↔ rounds = [⟨.list [.token t, .token t], 2⟩]) ∧
      ∃ n a, (∀ m, n ≤ m → attempt [] tokens m (.many p) 0 = some a) ∧
        a.outcome = .matched (.list [.list [.token t, .token t]]) 2 ∧
        a.nested.map (fun b => (b.parser, b.index)) = [(p, 0), (p, 2)] := by
  intro t tokens p
  have hreturns : ∀ k, Returns [] tokens p k := returns_many rfl rfl (returns_token .number)
  have hchain : Rounds [] tokens p 0 [⟨.list [.token t, .token t], 2⟩] :=
    .next ⟨5, _, rfl, rfl⟩ (by decide) (.rest (.inr ⟨.list [], 5, _, rfl, rfl⟩))
  have hstore : Store.jumpless [] := rfl
  obtain ⟨rounds, honly, hrun, -⟩ := many_repeats_greedily hstore rfl hreturns 0
  obtain rfl := (honly _).mp hchain
  exact ⟨hstore, rfl, hreturns, honly, hrun⟩

end Parser

end Conditions
