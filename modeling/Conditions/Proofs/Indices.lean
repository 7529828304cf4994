import Conditions.Grammar
import Conditions.Proofs.Budget

/-!
# Indices of runs

The primitives and the combinators move onward only: a match never ends before the index where it
began, and never behind the end of the tokens. Where the index is out of range there is nothing to
match, and a match stays where it is. The same is true of every run that is made on the way, at any
depth, so that no parser is ever run at an index that the run as a whole may not end at.

A run that ends has recorded the attempts that were made on its way. A run without end leaves no
record, and so the runs on its way are given by a relation, the calls, which follows the parser
instead. For a run that ends, the calls are what it has recorded.
-/

namespace Conditions

/-- The index `j` may be reached from `i`: it does not lie before it, nor behind the end of the
tokens if `i` does not; and from an index that is out of range only that index itself is reached. -/
structure Onward (tokens : Array Token) (i j : Int) : Prop where
  le : i ≤ j
  le_size : 0 ≤ i → i ≤ tokens.size → j ≤ tokens.size
  stays : i < 0 ∨ tokens.size < i → j = i

namespace Onward

variable {tokens : Array Token} {i j k : Int}

theorem refl (tokens : Array Token) (i : Int) : Onward tokens i i :=
  ⟨Int.le_refl i, fun _ h => h, fun _ => rfl⟩

theorem trans (hij : Onward tokens i j) (hjk : Onward tokens j k) : Onward tokens i k where
  le := Int.le_trans hij.le hjk.le
  le_size h₀ h := hjk.le_size (Int.le_trans h₀ hij.le) (hij.le_size h₀ h)
  stays h := by
    have hj := hij.stays h
    subst hj
    exact hjk.stays h

/-- The index behind a token. -/
theorem succ {t : Token} (h : tokenAt? tokens i = some t) : Onward tokens i (i + 1) := by
  have hrange : 0 ≤ i ∧ i < tokens.size := by
    unfold tokenAt? at h
    split at h
    · cases h
    · have := (Array.getElem?_eq_some_iff.mp h).1
      omega
  exact ⟨by omega, by omega, by omega⟩

end Onward

namespace Parser

mutual

/-- A parser is without jumps if it is made of the primitives and the combinators, and of forwards
and probes, which only pass the tokens and the index on. -/
def jumpless : Parser → Bool
  | empty _ | elem _ | forward _ => true
  | jump _ _ => false
  | pair first second _ => first.jumpless && second.jumpless
  | sequence parts | choice parts => allJumpless parts
  | many inner | transform inner _ | probe _ inner | named _ inner => inner.jumpless

/-- All of the parsers are without jumps. -/
def allJumpless : List Parser → Bool
  | [] => true
  | p :: ps => p.jumpless && allJumpless ps

end

theorem allJumpless_iff {ps : List Parser} : allJumpless ps ↔ ∀ p ∈ ps, p.jumpless := by
  induction ps with
  | nil => simp [allJumpless]
  | cons p ps ih => simp [allJumpless, ih]

@[simp]
theorem jumpless_rename (name : String) (p : Parser) : (p.rename name).jumpless = p.jumpless := by
  cases p <;> rfl

@[simp]
theorem jumpless_parenthesized (parts : List Parser) :
    (parenthesized parts).jumpless = allJumpless parts := by
  have h : ∀ ps, allJumpless (ps ++ [token .rightParen]) = allJumpless ps := by
    intro ps
    induction ps with
    | nil => rfl
    | cons p ps ih => simp [allJumpless, ih]
  exact h parts

end Parser

/-- A store is without jumps if the parsers are that have been supplied for its places. -/
def Store.jumpless (store : Store) : Bool :=
  store.all fun place => place.body?.all Parser.jumpless

theorem Store.jumpless_body {store : Store} (h : store.jumpless) {place : Nat}
    {name? : Option String} {body : Parser} (hplace : store[place]? = some ⟨name?, some body⟩) :
    body.jumpless := by
  have hmem := List.all_eq_true.mp h _ (List.mem_of_getElem? hplace)
  simpa using hmem

theorem Grammar.jumpless_store : Grammar.store.jumpless := rfl

theorem Production.jumpless_parser (production : Production) : production.parser.jumpless := by
  cases production <;> rfl

/-- What follows a part of a run depends on how the part has ended. -/
theorem Stretch.andThen_cases {α β : Type} {s : Stretch α} {t : Stretch β}
    {next : α → Int → Option (Stretch β)} (h : s.andThen next = some t) :
    (∃ value j u, s.outcome = .matched value j ∧ next value j = some u ∧
      t = ⟨s.attempts ++ u.attempts, u.outcome⟩) ∨
    (s.outcome = .failed ∧ t = ⟨s.attempts, .failed⟩) ∨
    ∃ e, s.outcome = .raised e ∧ t = ⟨s.attempts, .raised e⟩ := by
  unfold Stretch.andThen at h
  cases hs : s.outcome with
  | matched value j =>
    simp only [hs, Option.map_eq_some_iff] at h
    obtain ⟨u, hu, rfl⟩ := h
    exact .inl ⟨value, j, u, rfl, hu, rfl⟩
  | failed =>
    simp only [hs, Option.some.injEq] at h
    exact .inr (.inl ⟨rfl, h.symm⟩)
  | raised e =>
    simp only [hs, Option.some.injEq] at h
    exact .inr (.inr ⟨e, rfl, h.symm⟩)

theorem Stretch.andThen_eq_matched {α β : Type} {s : Stretch α} {t : Stretch β}
    {next : α → Int → Option (Stretch β)} (h : s.andThen next = some t) {y : β} {k : Int}
    (ho : t.outcome = .matched y k) :
    ∃ x j u, s.outcome = .matched x j ∧ next x j = some u ∧ u.outcome = .matched y k := by
  rcases andThen_cases h with ⟨x, j, u, hj, hu, rfl⟩ | ⟨-, rfl⟩ | ⟨e, -, rfl⟩
  · exact ⟨x, j, u, hj, hu, ho⟩
  · cases ho
  · cases ho

theorem Outcome.map_eq_matched {α β : Type} {f : α → β} {o : Outcome α} {y : β} {j : Int}
    (h : o.map f = .matched y j) : ∃ x, o = .matched x j ∧ f x = y := by
  cases o with
  | matched x k =>
    simp only [Outcome.map, Outcome.matched.injEq] at h
    exact ⟨x, by rw [h.2], h.1⟩
  | failed => cases h
  | raised e => cases h

theorem Outcome.refine_eq_matched {α β : Type} {f : α → Except Refusal β} {o : Outcome α} {y : β}
    {j : Int} (h : o.refine f = .matched y j) : ∃ x, o = .matched x j ∧ f x = .ok y := by
  cases o with
  | matched x k =>
    cases hx : f x with
    | ok y' =>
      simp only [refine, hx, matched.injEq] at h
      exact ⟨x, by rw [h.2], by rw [hx, h.1]⟩
    | error e => simp [refine, hx] at h
  | failed => cases h
  | raised e => cases h

namespace Parser

section
variable {run : Parser → Int → Option Attempt} {tokens : Array Token} {i j : Int}

/-- The matches of a parser lie onward from where they begin, as far as `run` runs it. -/
def MatchesOnward (run : Parser → Int → Option Attempt) (tokens : Array Token) (p : Parser) :
    Prop :=
  ∀ i a tree j, run p i = some a → a.outcome = .matched tree j → Onward tokens i j

theorem runSequence_onward {ps : List Parser} (h : ∀ p ∈ ps, MatchesOnward run tokens p)
    {s : Stretch (List Tree)} (hs : runSequence run ps i = some s) {trees : List Tree}
    (ho : s.outcome = .matched trees j) : Onward tokens i j := by
  induction ps generalizing i s trees with
  | nil =>
    simp only [runSequence, Option.some.injEq] at hs
    subst hs
    cases ho
    exact .refl tokens _
  | cons p ps ih =>
    simp only [runSequence, Option.bind_eq_bind, Option.bind_eq_some_iff] at hs
    obtain ⟨a, ha, hs⟩ := hs
    obtain ⟨tree, k, u, hk, hu, ho⟩ := Stretch.andThen_eq_matched hs ho
    rw [Option.map_eq_some_iff] at hu
    obtain ⟨v, hv, rfl⟩ := hu
    obtain ⟨rest, hrest, -⟩ := Outcome.map_eq_matched ho
    have hfirst := h p List.mem_cons_self i a tree k ha hk
    exact hfirst.trans (ih (fun q hq => h q (List.mem_cons_of_mem p hq)) hv hrest)

theorem runChoice_onward {ps : List Parser} (h : ∀ p ∈ ps, MatchesOnward run tokens p)
    {s : Stretch Tree} (hs : runChoice run ps i = some s) {tree : Tree}
    (ho : s.outcome = .matched tree j) : Onward tokens i j := by
  induction ps generalizing s with
  | nil =>
    simp only [runChoice, Option.some.injEq] at hs
    subst hs
    cases ho
  | cons p ps ih =>
    simp only [runChoice, Option.bind_eq_bind, Option.bind_eq_some_iff] at hs
    obtain ⟨a, ha, hs⟩ := hs
    cases hk : a.outcome with
    | failed =>
      simp only [hk, Option.map_eq_some_iff] at hs
      obtain ⟨u, hu, rfl⟩ := hs
      exact ih (fun q hq => h q (List.mem_cons_of_mem p hq)) hu ho
    | matched tree' k =>
      simp only [hk, Option.some.injEq] at hs
      subst hs
      cases ho
      exact h p List.mem_cons_self i a tree j ha hk
    | raised e =>
      simp only [hk, Option.some.injEq] at hs
      subst hs
      cases ho

theorem runMany_onward {p : Parser} (h : MatchesOnward run tokens p) {rounds : Nat}
    {s : Stretch (List Tree)} (hs : runMany run p rounds i = some s) {trees : List Tree}
    (ho : s.outcome = .matched trees j) : Onward tokens i j := by
  induction rounds generalizing i s trees with
  | zero => cases hs
  | succ rounds ih =>
    simp only [runMany, Option.bind_eq_bind, Option.bind_eq_some_iff] at hs
    obtain ⟨a, ha, hs⟩ := hs
    cases hk : a.outcome with
    | failed =>
      simp only [hk, Option.some.injEq] at hs
      subst hs
      cases ho
      exact .refl tokens _
    | raised e =>
      simp only [hk, Option.some.injEq] at hs
      subst hs
      cases ho
    | matched tree k =>
      simp only [hk] at hs
      split at hs
      · cases hs
        cases ho
        exact .refl tokens _
      · rw [Option.map_eq_some_iff] at hs
        obtain ⟨u, hu, rfl⟩ := hs
        obtain ⟨rest, hrest, -⟩ := Outcome.map_eq_matched ho
        exact (h i a tree k ha hk).trans (ih hu hrest)

/-- A step of a parser without jumps matches onward if the runs do that it is made of. -/
theorem step_onward {store : Store} (hstore : store.jumpless)
    (h : ∀ q, q.jumpless → MatchesOnward run tokens q) {rounds : Nat} {p : Parser}
    (hp : p.jumpless) {s : Stretch Tree} (hs : step run store tokens rounds p i = some s)
    {tree : Tree} (ho : s.outcome = .matched tree j) : Onward tokens i j := by
  cases p with
  | jump distance value => cases hp
  | empty value =>
    cases hs
    cases ho
    exact .refl tokens _
  | elem kind =>
    simp only [step] at hs
    split at hs
    · next t ht =>
      cases hs
      simp only [Stretch.done] at ho
      split at ho
      · cases ho
        exact .succ ht
      · cases ho
    · cases hs
      cases ho
  | pair first second combine =>
    simp only [jumpless, Bool.and_eq_true] at hp
    simp only [step, Option.bind_eq_bind, Option.bind_eq_some_iff] at hs
    obtain ⟨a, ha, hs⟩ := hs
    obtain ⟨t, k, u, hk, hu, ho⟩ := Stretch.andThen_eq_matched hs ho
    rw [Option.bind_eq_some_iff] at hu
    obtain ⟨b, hb, hu⟩ := hu
    cases hu
    obtain ⟨t', ht', -⟩ := Outcome.refine_eq_matched ho
    exact (h first hp.1 i a t k ha hk).trans (h second hp.2 k b t' j hb ht')
  | sequence parts =>
    simp only [jumpless, allJumpless_iff] at hp
    simp only [step, Option.map_eq_some_iff] at hs
    obtain ⟨u, hu, rfl⟩ := hs
    obtain ⟨trees, htrees, -⟩ := Outcome.map_eq_matched ho
    exact runSequence_onward (fun q hq => h q (hp q hq)) hu htrees
  | many inner =>
    simp only [step, Option.map_eq_some_iff] at hs
    obtain ⟨u, hu, rfl⟩ := hs
    obtain ⟨trees, htrees, -⟩ := Outcome.map_eq_matched ho
    exact runMany_onward (h inner hp) hu htrees
  | choice alternatives =>
    simp only [jumpless, allJumpless_iff] at hp
    exact runChoice_onward (fun q hq => h q (hp q hq)) hs ho
  | transform inner f =>
    simp only [step, Option.map_eq_some_iff] at hs
    obtain ⟨a, ha, rfl⟩ := hs
    obtain ⟨t, ht, -⟩ := Outcome.refine_eq_matched ho
    exact h inner hp i a t j ha ht
  | forward place =>
    simp only [step] at hs
    split at hs
    · next name? body hplace =>
      rw [Option.map_eq_some_iff] at hs
      obtain ⟨a, ha, rfl⟩ := hs
      exact h body (Store.jumpless_body hstore hplace) i a tree j ha ho
    · cases hs
      cases ho
    · cases hs
      cases ho
  | probe label inner | named name inner =>
    simp only [step, Option.map_eq_some_iff] at hs
    obtain ⟨a, ha, rfl⟩ := hs
    exact h inner hp i a tree j ha ho

end

section
variable {store : Store} {tokens : Array Token}

/-- No match of a parser without jumps goes back, and none leaves the tokens. -/
theorem matchesOnward_attempt (hstore : store.jumpless) (n : Nat) {p : Parser} (hp : p.jumpless) :
    MatchesOnward (attempt store tokens n) tokens p := by
  induction n generalizing p with
  | zero =>
    intro i a tree j ha
    cases ha
  | succ n ih =>
    intro i a tree j ha ho
    simp only [attempt, Option.map_eq_some_iff] at ha
    obtain ⟨s, hs, rfl⟩ := ha
    exact step_onward hstore (fun q hq => ih hq) hp hs ho

end

/-! ### Calls -/

/-- The run of a parser at an index ends with the outcome. -/
def Ends (store : Store) (tokens : Array Token) (p : Parser) (i : Int) (o : Outcome Tree) : Prop :=
  ∃ n a, attempt store tokens n p i = some a ∧ a.outcome = o

section
variable (store : Store) (tokens : Array Token)

/-- Where parsers are run one behind the other from `i` on, `q` is run at `k`. -/
def CallsInTurn : List Parser → Int → Parser → Int → Prop
  | [], _, _, _ => False
  | p :: ps, i, q, k =>
    q = p ∧ k = i ∨ ∃ tree j, Ends store tokens p i (.matched tree j) ∧ CallsInTurn ps j q k

/-- Where parsers are tried at `i`, one after the other, `q` is tried. -/
def CallsAsChoice : List Parser → Int → Parser → Prop
  | [], _, _ => False
  | p :: ps, i, q => q = p ∨ Ends store tokens p i .failed ∧ CallsAsChoice ps i q

/-- Where a parser is run again and again from `i` on, it is run at `k`. -/
inductive CallsAgain (p : Parser) : Int → Int → Prop where
  | first (i : Int) : CallsAgain p i i
  | again {i j k : Int} {tree : Tree} :
      Ends store tokens p i (.matched tree j) → j ≠ i → CallsAgain p j k → CallsAgain p i k

/-- The run of a parser at `i` makes a run of `q` at `k`, whether or not either of them ends. -/
def Calls (p : Parser) (i : Int) (q : Parser) (k : Int) : Prop :=
  match p with
  | empty _ | elem _ | jump _ _ => False
  | pair first second _ => CallsInTurn store tokens [first, second] i q k
  | sequence parts => CallsInTurn store tokens parts i q k
  | many inner => q = inner ∧ CallsAgain store tokens inner i k
  | choice alternatives => CallsAsChoice store tokens alternatives i q ∧ k = i
  | forward place => (∃ name?, store[place]? = some ⟨name?, some q⟩) ∧ k = i
  | transform inner _ | probe _ inner | named _ inner => q = inner ∧ k = i

/-- The run of a parser at an index makes a run of another one at an index, by itself or by the runs
that it makes. -/
inductive Reaches : Parser → Int → Parser → Int → Prop where
  | call {p q : Parser} {i k : Int} : Calls store tokens p i q k → Reaches p i q k
  | further {p q r : Parser} {i k l : Int} :
      Calls store tokens p i q k → Reaches q k r l → Reaches p i r l

end

section
variable {store : Store} {tokens : Array Token} {n : Nat} {p q : Parser} {i k : Int}

theorem Ends.onward (hstore : store.jumpless) (hp : p.jumpless) {tree : Tree} {j : Int}
    (h : Ends store tokens p i (.matched tree j)) : Onward tokens i j := by
  obtain ⟨n, a, ha, ho⟩ := h
  exact matchesOnward_attempt hstore n hp i a tree j ha ho

/-- However large the budget, a run ends in one way only. -/
theorem ends_iff {a : Attempt} (ha : attempt store tokens n p i = some a) {o : Outcome Tree} :
    Ends store tokens p i o ↔ a.outcome = o := by
  constructor
  · intro h
    obtain ⟨m, b, hb, rfl⟩ := h
    have ha' := attempt_mono (Nat.le_max_left n m) ha
    have hb' := attempt_mono (Nat.le_max_right n m) hb
    rw [Option.some.inj (ha'.symm.trans hb')]
  · intro h
    exact ⟨n, a, ha, h⟩

theorem exists_ends_matched_iff {a : Attempt} (ha : attempt store tokens n p i = some a)
    {tree : Tree} {j : Int} (hj : a.outcome = .matched tree j) {P : Int → Prop} :
    (∃ tree' j', Ends store tokens p i (.matched tree' j') ∧ P j') ↔ P j := by
  simp only [ends_iff ha, hj, Outcome.matched.injEq]
  constructor
  · rintro ⟨_, _, ⟨-, rfl⟩, h⟩
    exact h
  · intro h
    exact ⟨tree, j, ⟨rfl, rfl⟩, h⟩

theorem CallsInTurn.onward {ps : List Parser} (hstore : store.jumpless)
    (hps : ∀ p ∈ ps, p.jumpless) (h : CallsInTurn store tokens ps i q k) :
    q.jumpless ∧ Onward tokens i k := by
  induction ps generalizing i with
  | nil => cases h
  | cons p ps ih =>
    -- The parser that is called is the first one, or one behind the match of the first.
    rcases h with ⟨rfl, rfl⟩ | ⟨tree, j, hp, hcall⟩
    · exact ⟨hps q List.mem_cons_self, .refl tokens k⟩
    · obtain ⟨hq, hjk⟩ := ih (fun r hr => hps r (List.mem_cons_of_mem p hr)) hcall
      exact ⟨hq, (hp.onward hstore (hps p List.mem_cons_self)).trans hjk⟩

theorem CallsAsChoice.mem {ps : List Parser} (h : CallsAsChoice store tokens ps i q) : q ∈ ps := by
  induction ps with
  | nil => cases h
  | cons p ps ih =>
    rcases h with rfl | ⟨-, hcall⟩
    · exact List.mem_cons_self
    · exact List.mem_cons_of_mem p (ih hcall)

theorem CallsAgain.onward (hstore : store.jumpless) (hp : p.jumpless)
    (h : CallsAgain store tokens p i k) : Onward tokens i k := by
  induction h with
  | first i => exact .refl tokens i
  | again hround _ _ ih => exact (hround.onward hstore hp).trans ih

/-- What a parser without jumps calls is without jumps, and is called onward. -/
theorem Calls.onward (hstore : store.jumpless) (hp : p.jumpless)
    (h : Calls store tokens p i q k) : q.jumpless ∧ Onward tokens i k := by
  cases p with
  | empty | elem | jump => cases h
  | pair first second combine =>
    simp only [jumpless, Bool.and_eq_true] at hp
    exact CallsInTurn.onward hstore (by simp [hp]) h
  | sequence parts =>
    simp only [jumpless, allJumpless_iff] at hp
    exact CallsInTurn.onward hstore hp h
  | many inner =>
    obtain ⟨rfl, h⟩ := h
    have hq : q.jumpless := hp
    exact ⟨hq, h.onward hstore hq⟩
  | choice alternatives =>
    simp only [jumpless, allJumpless_iff] at hp
    obtain ⟨h, rfl⟩ := h
    exact ⟨hp q h.mem, .refl tokens k⟩
  | forward place =>
    obtain ⟨⟨name?, hplace⟩, rfl⟩ := h
    exact ⟨Store.jumpless_body hstore hplace, .refl tokens k⟩
  | transform inner _ | probe _ inner | named _ inner =>
    obtain ⟨rfl, rfl⟩ := h
    exact ⟨hp, .refl tokens k⟩

/-- Every run on the way of a parser without jumps is made onward. -/
theorem Reaches.onward (hstore : store.jumpless) (hp : p.jumpless)
    (h : Reaches store tokens p i q k) : Onward tokens i k := by
  induction h with
  | call hcall => exact (hcall.onward hstore hp).2
  | further hcall _ ih =>
    obtain ⟨hq, hik⟩ := hcall.onward hstore hp
    exact hik.trans (ih hq)

/-- Every run on the way of a parser without jumps is that of a parser without jumps. -/
theorem Reaches.jumpless (hstore : store.jumpless) (hp : p.jumpless)
    (h : Reaches store tokens p i q k) : q.jumpless := by
  induction h with
  | call hcall => exact (hcall.onward hstore hp).1
  | further hcall _ ih => exact ih (hcall.onward hstore hp).1

/-! ### Recorded attempts -/

/-- An attempt is the run of its own parser at its own index. -/
theorem eq_iff_of_attempt {a b : Attempt} (ha : attempt store tokens n p i = some a) :
    b = a ↔ attempt store tokens n b.parser b.index = some b ∧ b.parser = p ∧ b.index = i := by
  constructor
  · intro h
    subst h
    cases n with
    | zero => cases ha
    | succ n =>
      have hown := ha
      simp only [attempt, Option.map_eq_some_iff] at hown
      obtain ⟨s, -, rfl⟩ := hown
      exact ⟨ha, rfl, rfl⟩
  · intro h
    obtain ⟨hb, rfl, rfl⟩ := h
    exact Option.some.inj (hb.symm.trans ha)

theorem mem_runSequence_iff {ps : List Parser} {s : Stretch (List Tree)}
    (hs : runSequence (attempt store tokens n) ps i = some s) (b : Attempt) :
    b ∈ s.attempts ↔ attempt store tokens n b.parser b.index = some b ∧
      CallsInTurn store tokens ps i b.parser b.index := by
  induction ps generalizing i s with
  | nil =>
    cases hs
    simp [CallsInTurn, Stretch.done]
  | cons p ps ih =>
    simp only [runSequence, Option.bind_eq_bind, Option.bind_eq_some_iff] at hs
    obtain ⟨a, ha, hs⟩ := hs
    rw [CallsInTurn]
    rcases Stretch.andThen_cases hs with ⟨tree, j, u, hj, hu, rfl⟩ | ⟨hj, rfl⟩ | ⟨e, hj, rfl⟩
    · rw [Option.map_eq_some_iff] at hu
      obtain ⟨v, hv, rfl⟩ := hu
      -- The match of the first parser within the budget is the only one it has.
      rw [exists_ends_matched_iff ha hj]
      simp [Stretch.single, Stretch.map, ih hv, eq_iff_of_attempt ha, and_or_left]
    · have hj : a.outcome = .failed := hj
      simp [Stretch.single, eq_iff_of_attempt ha, ends_iff ha, hj]
    · have hj : a.outcome = .raised e := hj
      simp [Stretch.single, eq_iff_of_attempt ha, ends_iff ha, hj]

theorem mem_runChoice_iff {ps : List Parser} {s : Stretch Tree}
    (hs : runChoice (attempt store tokens n) ps i = some s) (b : Attempt) :
    b ∈ s.attempts ↔ attempt store tokens n b.parser b.index = some b ∧
      CallsAsChoice store tokens ps i b.parser ∧ b.index = i := by
  induction ps generalizing s with
  | nil =>
    cases hs
    simp [CallsAsChoice, Stretch.done]
  | cons p ps ih =>
    simp only [runChoice, Option.bind_eq_bind, Option.bind_eq_some_iff] at hs
    obtain ⟨a, ha, hs⟩ := hs
    simp only [CallsAsChoice, ends_iff ha]
    cases hj : a.outcome with
    | failed =>
      simp only [hj, Option.map_eq_some_iff] at hs
      obtain ⟨u, hu, rfl⟩ := hs
      simp [ih hu, eq_iff_of_attempt ha, or_and_right, and_or_left]
    | matched tree j | raised e =>
      simp only [hj, Option.some.injEq] at hs
      subst hs
      simp [eq_iff_of_attempt ha]

theorem callsAgain_iff : CallsAgain store tokens p i k ↔ k = i ∨ ∃ tree j,
    Ends store tokens p i (.matched tree j) ∧ j ≠ i ∧ CallsAgain store tokens p j k := by
  constructor
  · intro h
    cases h with
    | first => exact .inl rfl
    | again hround hne h => exact .inr ⟨_, _, hround, hne, h⟩
  · intro h
    rcases h with rfl | ⟨tree, j, hround, hne, h⟩
    · exact .first k
    · exact .again hround hne h

theorem mem_runMany_iff {rounds : Nat} {s : Stretch (List Tree)}
    (hs : runMany (attempt store tokens n) p rounds i = some s) (b : Attempt) :
    b ∈ s.attempts ↔ attempt store tokens n b.parser b.index = some b ∧
      b.parser = p ∧ CallsAgain store tokens p i b.index := by
  induction rounds generalizing i s with
  | zero => cases hs
  | succ rounds ih =>
    simp only [runMany, Option.bind_eq_bind, Option.bind_eq_some_iff] at hs
    obtain ⟨a, ha, hs⟩ := hs
    rw [callsAgain_iff]
    cases hj : a.outcome with
    | failed | raised e =>
      simp only [hj, Option.some.injEq] at hs
      subst hs
      simp [eq_iff_of_attempt ha, ends_iff ha, hj]
    | matched tree j =>
      simp only [hj] at hs
      rw [exists_ends_matched_iff ha hj]
      split at hs
      · next hji =>
        cases hs
        simp [eq_iff_of_attempt ha, hji]
      · next hji =>
        rw [Option.map_eq_some_iff] at hs
        obtain ⟨u, hu, rfl⟩ := hs
        simp [ih hu, eq_iff_of_attempt ha, hji, and_or_left]

/-- The attempts that a run has recorded as its own are the runs of what it calls. -/
theorem mem_nested_iff {a : Attempt} (ha : attempt store tokens (n + 1) p i = some a)
    (b : Attempt) :
    b ∈ a.nested ↔
      attempt store tokens n b.parser b.index = some b ∧
        Calls store tokens p i b.parser b.index := by
  simp only [attempt, Option.map_eq_some_iff] at ha
  obtain ⟨s, hs, rfl⟩ := ha
  simp only
  cases p with
  | empty | jump =>
    cases hs
    simp [Calls, Stretch.done]
  | elem kind =>
    simp only [step] at hs
    split at hs
    all_goals
      cases hs
      simp [Calls, Stretch.done]
  | pair first second combine =>
    simp only [step, Option.bind_eq_bind, Option.bind_eq_some_iff] at hs
    obtain ⟨a, ha, hs⟩ := hs
    simp only [Calls, CallsInTurn]
    rcases Stretch.andThen_cases hs with ⟨tree, j, u, hj, hu, rfl⟩ | ⟨hj, rfl⟩ | ⟨e, hj, rfl⟩
    · rw [Option.bind_eq_some_iff] at hu
      obtain ⟨c, hc, hu⟩ := hu
      cases hu
      rw [exists_ends_matched_iff ha hj]
      simp [Stretch.single, Stretch.refine, eq_iff_of_attempt ha, eq_iff_of_attempt hc,
        and_or_left]
    · have hj : a.outcome = .failed := hj
      simp [Stretch.single, eq_iff_of_attempt ha, ends_iff ha, hj]
    · have hj : a.outcome = .raised e := hj
      simp [Stretch.single, eq_iff_of_attempt ha, ends_iff ha, hj]
  | sequence parts =>
    simp only [step, Option.map_eq_some_iff] at hs
    obtain ⟨u, hu, rfl⟩ := hs
    exact mem_runSequence_iff hu b
  | many inner =>
    simp only [step, Option.map_eq_some_iff] at hs
    obtain ⟨u, hu, rfl⟩ := hs
    exact mem_runMany_iff hu b
  | choice alternatives => exact mem_runChoice_iff hs b
  | forward place =>
    simp only [step] at hs
    split at hs
    · next name? body hplace =>
      rw [Option.map_eq_some_iff] at hs
      obtain ⟨a, ha, rfl⟩ := hs
      simp [Calls, Stretch.single, eq_iff_of_attempt ha, hplace, eq_comm]
    · next hplace =>
      cases hs
      simp [Calls, Stretch.done, hplace]
    · next hplace =>
      cases hs
      simp [Calls, Stretch.done, hplace]
  | transform inner _ | probe _ inner | named _ inner =>
    simp only [step, Option.map_eq_some_iff] at hs
    obtain ⟨a, ha, rfl⟩ := hs
    simp only [Calls, ← eq_iff_of_attempt ha]
    simp [Stretch.single, Stretch.refine]

end

end Parser

/-- A run that was made in the course of another, by it or by a run that was. -/
inductive Attempt.Within : Attempt → Attempt → Prop where
  | nested {a b : Attempt} : b ∈ a.nested → Within b a
  | deeper {a b c : Attempt} : c ∈ a.nested → Within b c → Within b a

namespace Attempt

mutual

/-- The runs of marked parsers in a run, itself included, in the order in which they begin. -/
def runsOf (mark : Parser → Bool) : Attempt → List Attempt
  | ⟨parser, index, nested, outcome⟩ =>
    (if mark parser then [⟨parser, index, nested, outcome⟩] else []) ++ runsOfAll mark nested

/-- The runs of marked parsers in runs that follow one another. -/
def runsOfAll (mark : Parser → Bool) : List Attempt → List Attempt
  | [] => []
  | a :: rest => a.runsOf mark ++ runsOfAll mark rest

end

mutual

/-- The indices of the runs of marked parsers in a run, in the order in which they begin. -/
def indicesOf (mark : Parser → Bool) : Attempt → List Int
  | ⟨parser, index, nested, _⟩ =>
    (if mark parser then [index] else []) ++ indicesOfAll mark nested

/-- The indices of the runs of marked parsers in runs that follow one another. -/
def indicesOfAll (mark : Parser → Bool) : List Attempt → List Int
  | [] => []
  | a :: rest => a.indicesOf mark ++ indicesOfAll mark rest

end

variable {mark : Parser → Bool}

theorem runsOf_eq (a : Attempt) :
    a.runsOf mark = (if mark a.parser then [a] else []) ++ runsOfAll mark a.nested := by
  cases a
  rfl

theorem mem_runsOfAll {attempts : List Attempt} {b : Attempt} :
    b ∈ runsOfAll mark attempts ↔ ∃ a ∈ attempts, b ∈ a.runsOf mark := by
  induction attempts with
  | nil => simp [runsOfAll]
  | cons a rest ih => simp [runsOfAll, ih]

theorem eq_or_within_of_mem_runsOf {b : Attempt} :
    ∀ a : Attempt, b ∈ a.runsOf mark → mark b.parser ∧ (b = a ∨ b.Within a)
  | ⟨parser, index, nested, outcome⟩, h => by
    rw [runsOf_eq, List.mem_append, mem_runsOfAll] at h
    rcases h with hown | ⟨c, hc, hb⟩
    · split at hown
      · next hmark =>
        rw [List.mem_singleton] at hown
        subst hown
        exact ⟨hmark, .inl rfl⟩
      · cases hown
    · obtain ⟨hmark, rfl | hwithin⟩ := eq_or_within_of_mem_runsOf c hb
      · exact ⟨hmark, .inr (.nested hc)⟩
      · exact ⟨hmark, .inr (.deeper hc hwithin)⟩

theorem mem_runsOf_of_within {a b : Attempt} (h : b.Within a) (hmark : mark b.parser) :
    b ∈ a.runsOf mark := by
  induction h with
  | @nested a b hb =>
    rw [runsOf_eq, List.mem_append, mem_runsOfAll]
    exact .inr ⟨b, hb, by simp [runsOf_eq, hmark]⟩
  | @deeper a b c hc _ ih =>
    rw [runsOf_eq, List.mem_append, mem_runsOfAll]
    exact .inr ⟨c, hc, ih hmark⟩

/-- The marked runs of a run are all those among it and the runs that are made in its course. -/
theorem mem_runsOf_iff {a b : Attempt} :
    b ∈ a.runsOf mark ↔ mark b.parser ∧ (b = a ∨ b.Within a) := by
  constructor
  · exact eq_or_within_of_mem_runsOf a
  · rintro ⟨hmark, rfl | hwithin⟩
    · simp [runsOf_eq, hmark]
    · exact mem_runsOf_of_within hwithin hmark

mutual

theorem indicesOf_eq_map (mark : Parser → Bool) :
    ∀ a : Attempt, a.indicesOf mark = (a.runsOf mark).map Attempt.index
  | ⟨parser, index, nested, outcome⟩ => by
    rw [indicesOf, runsOf, List.map_append, indicesOfAll_eq_map mark nested]
    split <;> rfl

theorem indicesOfAll_eq_map (mark : Parser → Bool) :
    ∀ attempts : List Attempt,
      indicesOfAll mark attempts = (runsOfAll mark attempts).map Attempt.index
  | [] => rfl
  | a :: rest => by
    rw [indicesOfAll, runsOfAll, List.map_append, indicesOf_eq_map mark a,
      indicesOfAll_eq_map mark rest]

end

theorem indicesOf_eq (a : Attempt) :
    a.indicesOf mark =
      (if mark a.parser then [a.index] else []) ++ indicesOfAll mark a.nested := by
  cases a
  rfl

theorem index_mem_of_within {a b : Attempt} (h : b.Within a) (hmark : mark b.parser) :
    b.index ∈ indicesOfAll mark a.nested := by
  rw [indicesOfAll_eq_map]
  refine List.mem_map_of_mem (mem_runsOfAll.mpr ?_)
  cases h with
  | nested hb => exact ⟨b, hb, mem_runsOf_iff.mpr ⟨hmark, .inl rfl⟩⟩
  | deeper hc hwithin => exact ⟨_, hc, mem_runsOf_iff.mpr ⟨hmark, .inr hwithin⟩⟩

theorem mem_indicesOf_iff {a : Attempt} {k : Int} :
    k ∈ a.indicesOf mark ↔ ∃ b, mark b.parser ∧ (b = a ∨ b.Within a) ∧ b.index = k := by
  simp only [indicesOf_eq_map, List.mem_map, mem_runsOf_iff, and_assoc]

end Attempt

namespace Parser

variable {store : Store} {tokens : Array Token} {p : Parser} {i : Int}

/-- The runs that are made in the course of a run are on its way. -/
theorem reaches_of_within {n : Nat} {a b : Attempt} (ha : attempt store tokens n p i = some a)
    (h : b.Within a) : Reaches store tokens p i b.parser b.index := by
  induction h generalizing n p i with
  | @nested a b hb =>
    cases n with
    | zero => cases ha
    | succ n => exact .call ((mem_nested_iff ha b).mp hb).2
  | @deeper a b c hc _ ih =>
    cases n with
    | zero => cases ha
    | succ n =>
      obtain ⟨hrun, hcall⟩ := (mem_nested_iff ha c).mp hc
      exact .further hcall (ih hrun)

/-- The runs that are made in the course of a run end within its budget. -/
theorem attempt_of_within {n : Nat} {a b : Attempt} (ha : attempt store tokens n p i = some a)
    (h : b.Within a) : attempt store tokens n b.parser b.index = some b := by
  induction h generalizing n p i with
  | @nested a b hb =>
    cases n with
    | zero => cases ha
    | succ n => exact attempt_mono (Nat.le_succ n) ((mem_nested_iff ha b).mp hb).1
  | @deeper a b c hc _ ih =>
    cases n with
    | zero => cases ha
    | succ n => exact attempt_mono (Nat.le_succ n) (ih ((mem_nested_iff ha c).mp hc).1)

/-- Runs go onward. A parser without jumps neither goes back nor leaves the tokens, and stays where
it is if it is out of range: this is so of the index behind a match, and of the index of every run
that is made on the way, whether or not the run as a whole ends. -/
theorem runs_go_onward (hstore : store.jumpless) (hp : p.jumpless) (tokens : Array Token) (i : Int) :
    (∀ n a, attempt store tokens n p i = some a →
      (∀ tree j, a.outcome = .matched tree j → Onward tokens i j) ∧
      ∀ b : Attempt, b.Within a → Onward tokens i b.index) ∧
    ∀ q k, Reaches store tokens p i q k → Onward tokens i k := by
  have hreaches (q : Parser) (k : Int) (h : Reaches store tokens p i q k) : Onward tokens i k :=
    h.onward hstore hp
  refine ⟨fun n a ha => ⟨fun tree j ho => ?_, fun b hb => ?_⟩, hreaches⟩
  · exact matchesOnward_attempt hstore n hp i a tree j ha ho
  · exact hreaches b.parser b.index (reaches_of_within ha hb)

theorem runs_go_onward_condition :
    let tokens : Array Token := #[⟨.leftParen, "(", .absent, none⟩, ⟨.and, "AND", .absent, none⟩,
      ⟨.rightParen, ")", .absent, none⟩]
    Grammar.store.jumpless ∧ Grammar.condition.jumpless ∧
    (∃ a, attempt Grammar.store tokens 24 Grammar.condition 0 = some a ∧
      a.outcome = .matched (.list [.token ⟨.and, "AND", .absent, none⟩]) 3 ∧
      Onward tokens 0 3 ∧ ∀ b : Attempt, b.Within a → Onward tokens 0 b.index) ∧
    ∀ q k, Reaches Grammar.store tokens Grammar.condition 0 q k → Onward tokens 0 k := by
  intro tokens
  have hstore := Grammar.jumpless_store
  have hp := Production.condition.jumpless_parser
  obtain ⟨a, ha, ho⟩ : ∃ a, attempt Grammar.store tokens 24 Grammar.condition 0 = some a ∧
      a.outcome = .matched (.list [.token ⟨.and, "AND", .absent, none⟩]) 3 :=
    ⟨_, rfl, rfl⟩
  obtain ⟨hruns, hreaches⟩ := runs_go_onward hstore hp tokens 0
  exact ⟨hstore, hp, ⟨a, ha, ho, (hruns 24 a ha).1 _ 3 ho, (hruns 24 a ha).2⟩, hreaches⟩

end Parser

end Conditions
