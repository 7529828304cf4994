import Conditions.Parser.Trace
import Conditions.Proofs.Indices
import Conditions.Proofs.Steps
import Mathlib.Data.List.Forall2

/-!
# Similar runs

Two parsers are similar if they are put together alike: names may be added or left out anywhere, and
a forward of the one may stand for another place than that of the other, as long as the two places
hold similar parsers. The runs of similar parsers end alike. It does not matter at which index they
begin, nor what tokens there are, as long as the tokens that the one run tries are found by the
other, at the same distance from where it begins.
-/

namespace Conditions

namespace Parser

/-- Parsers that are put together alike, up to names, where the places of their forwards are related
by `R`. -/
inductive Similar (R : Nat → Nat → Prop) : Parser → Parser → Prop where
  | empty (value : Tree) : Similar R (.empty value) (.empty value)
  | elem (kind : TokenKind) : Similar R (.elem kind) (.elem kind)
  | pair {p p' q q' : Parser} {combine : Tree → Tree → Except Refusal Tree} :
      Similar R p p' → Similar R q q' → Similar R (.pair p q combine) (.pair p' q' combine)
  | sequence {ps ps' : List Parser} :
      List.Forall₂ (Similar R) ps ps' → Similar R (.sequence ps) (.sequence ps')
  | many {p p' : Parser} : Similar R p p' → Similar R (.many p) (.many p')
  | choice {ps ps' : List Parser} :
      List.Forall₂ (Similar R) ps ps' → Similar R (.choice ps) (.choice ps')
  | transform {p p' : Parser} {f : Tree → Except Refusal Tree} :
      Similar R p p' → Similar R (.transform p f) (.transform p' f)
  | forward {place place' : Nat} : R place place' → Similar R (.forward place) (.forward place')
  | probe {label : String} {p p' : Parser} :
      Similar R p p' → Similar R (.probe label p) (.probe label p')
  | jump (distance : Int) (value : Tree) : Similar R (.jump distance value) (.jump distance value)
  | namedLeft {name : String} {p p' : Parser} : Similar R p p' → Similar R (.named name p) p'
  | namedRight {name : String} {p p' : Parser} : Similar R p p' → Similar R p (.named name p')

mutual

/-- The places that the forwards of a parser stand for. -/
def places : Parser → List Nat
  | forward place => [place]
  | empty _ | elem _ | jump _ _ => []
  | pair first second _ => first.places ++ second.places
  | sequence parts | choice parts => placesOfAll parts
  | many inner | transform inner _ | probe _ inner | named _ inner => inner.places

/-- The places that the forwards of parsers stand for. -/
def placesOfAll : List Parser → List Nat
  | [] => []
  | p :: ps => p.places ++ placesOfAll ps

end

mutual

/-- Similarity may be read from either side, and only those places matter that the parsers have. The
recursion is on the parsers. -/
theorem Similar.symm {R R' : Nat → Nat → Prop} {p p' : Parser} (h : Similar R p p')
    (hR : ∀ a ∈ p.places, ∀ b ∈ p'.places, R a b → R' b a) : Similar R' p' p := by
  match h with
  | .empty value => exact .empty value
  | .elem kind => exact .elem kind
  | .jump distance value => exact .jump distance value
  | .pair hp hq =>
    simp only [places, List.forall_mem_append] at hR
    exact .pair (hp.symm fun a ha => (hR.1 a ha).1) (hq.symm fun a ha => (hR.2 a ha).2)
  | .sequence hps => exact .sequence (forall₂_similar_symm hps hR)
  | .many hp => exact .many (hp.symm hR)
  | .choice hps => exact .choice (forall₂_similar_symm hps hR)
  | .transform hp => exact .transform (hp.symm hR)
  | .forward hplace =>
    exact .forward (hR _ (List.mem_singleton_self _) _ (List.mem_singleton_self _) hplace)
  | .probe hp => exact .probe (hp.symm hR)
  | .namedLeft hp => exact .namedRight (hp.symm hR)
  | .namedRight hp => exact .namedLeft (hp.symm hR)
termination_by sizeOf p + sizeOf p'

theorem forall₂_similar_symm {R R' : Nat → Nat → Prop} {ps ps' : List Parser}
    (h : List.Forall₂ (Similar R) ps ps')
    (hR : ∀ a ∈ placesOfAll ps, ∀ b ∈ placesOfAll ps', R a b → R' b a) :
    List.Forall₂ (Similar R') ps' ps := by
  match h with
  | .nil => exact .nil
  | .cons hp hps =>
    simp only [placesOfAll, List.forall_mem_append] at hR
    exact .cons (hp.symm fun a ha => (hR.1 a ha).1)
      (forall₂_similar_symm hps fun a ha => (hR.2 a ha).2)
termination_by sizeOf ps + sizeOf ps'

end

theorem Similar.mono {R R' : Nat → Nat → Prop} {p p' : Parser} (h : Similar R p p')
    (hR : ∀ a ∈ p.places, ∀ b ∈ p'.places, R a b → R' a b) : Similar R' p p' := by
  have hback : Similar (fun b a => R' a b) p' p := h.symm hR
  exact hback.symm fun _ _ _ _ hab => hab

mutual

/-- Parsers are similar if both are similar to a third one. The recursion is on the parsers. -/
theorem Similar.trans {R R' : Nat → Nat → Prop} {p q r : Parser} (h : Similar R p q)
    (h' : Similar R' q r) : Similar (fun a c => ∃ b, R a b ∧ R' b c) p r := by
  match h, h' with
  | .namedLeft hp, h' => exact .namedLeft (hp.trans h')
  | h, .namedRight hq => exact .namedRight (h.trans hq)
  | .namedRight hp, .namedLeft hq => exact hp.trans hq
  | .empty value, .empty _ => exact .empty value
  | .elem kind, .elem _ => exact .elem kind
  | .jump distance value, .jump _ _ => exact .jump distance value
  | .pair hp hq, .pair hp' hq' => exact .pair (hp.trans hp') (hq.trans hq')
  | .sequence hps, .sequence hps' => exact .sequence (forall₂_similar_trans hps hps')
  | .many hp, .many hp' => exact .many (hp.trans hp')
  | .choice hps, .choice hps' => exact .choice (forall₂_similar_trans hps hps')
  | .transform hp, .transform hp' => exact .transform (hp.trans hp')
  | .forward hab, .forward hbc => exact .forward ⟨_, hab, hbc⟩
  | .probe hp, .probe hp' => exact .probe (hp.trans hp')
termination_by sizeOf p + sizeOf q + sizeOf r

theorem forall₂_similar_trans {R R' : Nat → Nat → Prop} {ps qs rs : List Parser}
    (h : List.Forall₂ (Similar R) ps qs) (h' : List.Forall₂ (Similar R') qs rs) :
    List.Forall₂ (Similar fun a c => ∃ b, R a b ∧ R' b c) ps rs := by
  match h, h' with
  | .nil, .nil => exact .nil
  | .cons hp hps, .cons hp' hps' => exact .cons (hp.trans hp') (forall₂_similar_trans hps hps')
termination_by sizeOf ps + sizeOf qs + sizeOf rs

end

/-- The parser is that of one token. -/
def isElem : Parser → Bool
  | elem _ => true
  | _ => false

end Parser

/-- Places that are related hold similar parsers, or are both without a parser and have the same
name. -/
def Store.Similar (R : Nat → Nat → Prop) (store store' : Store) : Prop :=
  ∀ place place', R place place' →
    (∃ body body', store.resolve place = .ok body ∧ store'.resolve place' = .ok body' ∧
      body.Similar R body') ∨
    ∃ name, store.resolve place = .error name ∧ store'.resolve place' = .error name

theorem Store.Similar.symm {R : Nat → Nat → Prop} {store store' : Store}
    (h : store.Similar R store') {R' : Nat → Nat → Prop} (hR : ∀ a b, R a b ↔ R' b a) :
    store'.Similar R' store := by
  intro place place' hplace
  rcases h place' place ((hR place' place).mpr hplace) with
    ⟨body, body', hbody, hbody', hsimilar⟩ | ⟨name, hname, hname'⟩
  · exact .inl ⟨body', body, hbody', hbody, hsimilar.symm fun a _ b _ => (hR a b).mp⟩
  · exact .inr ⟨name, hname', hname⟩

/-! ### Echoes -/

/-- The outcome, with an index that is further on by a distance. -/
def Outcome.shift {α : Type} (d : Int) : Outcome α → Outcome α
  | matched value next => matched value (next + d)
  | failed => failed
  | raised e => raised e

@[simp]
theorem Outcome.shift_zero {α : Type} (o : Outcome α) : o.shift 0 = o := by
  cases o <;> simp [shift]

theorem Outcome.shift_map {α β : Type} (f : α → β) (d : Int) (o : Outcome α) :
    (o.map f).shift d = (o.shift d).map f := by
  cases o <;> rfl

theorem Outcome.shift_refine {α β : Type} (f : α → Except Refusal β) (d : Int) (o : Outcome α) :
    (o.refine f).shift d = (o.shift d).refine f := by
  cases o with
  | matched value j =>
    simp only [shift, refine]
    cases f value <;> rfl
  | failed | raised e => rfl

/-- Calls that are further on by a distance. -/
def shiftCalls (d : Int) (calls : List (String × Int)) : List (String × Int) :=
  calls.map fun call => (call.1, call.2 + d)

@[simp]
theorem shiftCalls_zero (calls : List (String × Int)) : shiftCalls 0 calls = calls := by
  simp [shiftCalls]

theorem shiftCalls_append (d : Int) (xs ys : List (String × Int)) :
    shiftCalls d (xs ++ ys) = shiftCalls d xs ++ shiftCalls d ys :=
  List.map_append

/-- The second run ends as the first does and makes the same calls, further on by a distance. -/
structure Attempt.Echoes (d : Int) (a a' : Attempt) : Prop where
  outcome : a'.outcome = a.outcome.shift d
  calls : a'.calls = shiftCalls d a.calls

/-- The second part of a run ends as the first does and makes the same calls, further on by a
distance. -/
structure Stretch.Echoes {α : Type} (d : Int) (s s' : Stretch α) : Prop where
  outcome : s'.outcome = s.outcome.shift d
  calls : Attempt.callsOfAll s'.attempts = shiftCalls d (Attempt.callsOfAll s.attempts)

namespace Stretch.Echoes

variable {α β : Type} {d : Int}

theorem done {o : Outcome α} : Echoes d (Stretch.done o) (Stretch.done (o.shift d)) :=
  ⟨rfl, rfl⟩

theorem single {a a' : Attempt} (h : a.Echoes d a') {o o' : Outcome α} (ho : o' = o.shift d) :
    Echoes d ⟨[a], o⟩ ⟨[a'], o'⟩ :=
  ⟨ho, h.calls⟩

theorem cons {a a' : Attempt} (h : a.Echoes d a') {s s' : Stretch α} (hs : s.Echoes d s')
    {o o' : Outcome β} (ho : o' = o.shift d) :
    Echoes d ⟨a :: s.attempts, o⟩ ⟨a' :: s'.attempts, o'⟩ where
  outcome := ho
  calls := by
    rw [Attempt.callsOfAll_cons, Attempt.callsOfAll_cons, h.calls, hs.calls, shiftCalls_append]

theorem map {s s' : Stretch α} (h : s.Echoes d s') (f : α → β) :
    (s.map f).Echoes d (s'.map f) where
  outcome := by rw [Stretch.map, Stretch.map, h.outcome, Outcome.shift_map]
  calls := h.calls

theorem refine {s s' : Stretch α} (h : s.Echoes d s') (f : α → Except Refusal β) :
    (s.refine f).Echoes d (s'.refine f) where
  outcome := by rw [Stretch.refine, Stretch.refine, h.outcome, Outcome.shift_refine]
  calls := h.calls

end Stretch.Echoes

/-- The label under which the runs of a parser are noted. -/
def Parser.label? : Parser → Option String
  | probe label _ => some label
  | _ => none

/-- The call of a run itself, if it is that of a labelled parser, precedes the calls on its
behalf. -/
theorem Attempt.calls_eq (p : Parser) (i : Int) (nested : List Attempt) (o : Outcome Tree) :
    (Attempt.mk p i nested o).calls =
      (p.label?.map fun label => (label, i)).toList ++ callsOfAll nested := by
  cases p <;> rfl

/-! ### Runs -/

namespace Parser

/-- The tokens found at the indices are found in the other tokens as well, further on by a distance;
and where there are none, there are none there. -/
def FoundAt (tokens tokens' : Array Token) (d : Int) (indices : List Int) : Prop :=
  ∀ k ∈ indices, tokenAt? tokens' (k + d) = tokenAt? tokens k

theorem FoundAt.append {tokens tokens' : Array Token} {d : Int} {xs ys : List Int}
    (h : FoundAt tokens tokens' d (xs ++ ys)) :
    FoundAt tokens tokens' d xs ∧ FoundAt tokens tokens' d ys :=
  List.forall_mem_append.mp h

section
variable {store store' : Store} {tokens tokens' : Array Token} {d : Int} {n : Nat}

/-- The runs of the first parser, within the budget, are echoed by runs of the second. -/
def Echoed (store store' : Store) (tokens tokens' : Array Token) (d : Int) (n : Nat)
    (p p' : Parser) : Prop :=
  ∀ i a, attempt store tokens n p i = some a →
    FoundAt tokens tokens' d (a.indicesOf isElem) →
    ∃ m a', attempt store' tokens' m p' (i + d) = some a' ∧ a.Echoes d a'

theorem runSequence_echoed {ps ps' : List Parser}
    (h : List.Forall₂ (Echoed store store' tokens tokens' d n) ps ps') {i : Int}
    {s : Stretch (List Tree)} (hs : runSequence (attempt store tokens n) ps i = some s)
    (hfound : FoundAt tokens tokens' d (Attempt.indicesOfAll isElem s.attempts)) :
    ∃ m s', runSequence (attempt store' tokens' m) ps' (i + d) = some s' ∧ s.Echoes d s' := by
  induction h generalizing i s with
  | nil =>
    cases hs
    exact ⟨0, _, rfl, .done⟩
  | @cons p p' ps ps' hp _ ih =>
    rw [runSequence_cons, Option.bind_eq_some_iff] at hs
    obtain ⟨a, ha, hs⟩ := hs
    cases ho : a.outcome with
    | failed | raised e =>
      simp only [ho, Option.some.injEq] at hs
      subst hs
      obtain ⟨m, a', ha', hecho⟩ := hp i a ha hfound.append.1
      refine ⟨m, ⟨[a'], _⟩, ?_, .single hecho rfl⟩
      rw [runSequence_cons, ha', Option.bind_some, hecho.outcome, ho]
      rfl
    | matched tree j =>
      simp only [ho, Option.map_eq_some_iff] at hs
      obtain ⟨u, hu, rfl⟩ := hs
      obtain ⟨m, a', ha', hecho⟩ := hp i a ha hfound.append.1
      obtain ⟨m', u', hu', hecho'⟩ := ih hu hfound.append.2
      have houtcome := congrArg (Outcome.map (tree :: ·)) hecho'.outcome
      refine ⟨max m m', _, ?_, .cons hecho hecho' (houtcome.trans (Outcome.shift_map _ d _).symm)⟩
      rw [runSequence_cons, attempt_mono (Nat.le_max_left m m') ha', Option.bind_some,
        hecho.outcome, ho]
      simp only [Outcome.shift]
      rw [runSequence_extends (attempt_extends (Nat.le_max_right m m')) _ _ _ hu']
      rfl

theorem runChoice_echoed {ps ps' : List Parser}
    (h : List.Forall₂ (Echoed store store' tokens tokens' d n) ps ps') {i : Int} {s : Stretch Tree}
    (hs : runChoice (attempt store tokens n) ps i = some s)
    (hfound : FoundAt tokens tokens' d (Attempt.indicesOfAll isElem s.attempts)) :
    ∃ m s', runChoice (attempt store' tokens' m) ps' (i + d) = some s' ∧ s.Echoes d s' := by
  induction h generalizing s with
  | nil =>
    cases hs
    exact ⟨0, _, rfl, .done⟩
  | @cons p p' ps ps' hp _ ih =>
    simp only [runChoice, Option.bind_eq_bind, Option.bind_eq_some_iff] at hs
    obtain ⟨a, ha, hs⟩ := hs
    cases ho : a.outcome with
    | matched tree j | raised e =>
      simp only [ho, Option.some.injEq] at hs
      subst hs
      obtain ⟨m, a', ha', hecho⟩ := hp i a ha hfound.append.1
      refine ⟨m, ⟨[a'], _⟩, ?_, .single hecho rfl⟩
      simp [runChoice, ha', hecho.outcome, ho, Outcome.shift]
    | failed =>
      simp only [ho, Option.map_eq_some_iff] at hs
      obtain ⟨u, hu, rfl⟩ := hs
      obtain ⟨m, a', ha', hecho⟩ := hp i a ha hfound.append.1
      obtain ⟨m', u', hu', hecho'⟩ := ih hu hfound.append.2
      refine ⟨max m m', _, ?_, .cons hecho hecho' hecho'.outcome⟩
      have hrest := runChoice_extends (attempt_extends (Nat.le_max_right m m')) _ _ _ hu'
      simp [runChoice, attempt_mono (Nat.le_max_left m m') ha', hecho.outcome, ho, Outcome.shift,
        hrest]

theorem runMany_echoed {p p' : Parser} (hp : Echoed store store' tokens tokens' d n p p')
    {rounds : Nat} {i : Int} {s : Stretch (List Tree)}
    (hs : runMany (attempt store tokens n) p rounds i = some s)
    (hfound : FoundAt tokens tokens' d (Attempt.indicesOfAll isElem s.attempts)) :
    ∃ m s', runMany (attempt store' tokens' m) p' m (i + d) = some s' ∧ s.Echoes d s' := by
  induction rounds generalizing i s with
  | zero => cases hs
  | succ rounds ih =>
    simp only [runMany, Option.bind_eq_bind, Option.bind_eq_some_iff] at hs
    obtain ⟨a, ha, hs⟩ := hs
    cases ho : a.outcome with
    | failed | raised e =>
      simp only [ho, Option.some.injEq] at hs
      subst hs
      obtain ⟨m, a', ha', hecho⟩ := hp i a ha hfound.append.1
      refine ⟨m + 1, ⟨[a'], _⟩, ?_, .single hecho rfl⟩
      simp [runMany, attempt_mono (Nat.le_succ m) ha', hecho.outcome, ho, Outcome.shift]
    | matched tree j =>
      simp only [ho] at hs
      by_cases hj : j = i
      · simp only [hj, if_true, Option.some.injEq] at hs
        subst hs
        obtain ⟨m, a', ha', hecho⟩ := hp i a ha hfound.append.1
        refine ⟨m + 1, ⟨[a'], _⟩, ?_, .single hecho rfl⟩
        simp [runMany, attempt_mono (Nat.le_succ m) ha', hecho.outcome, ho, hj, Outcome.shift]
      · simp only [hj, if_false, Option.map_eq_some_iff] at hs
        obtain ⟨u, hu, rfl⟩ := hs
        obtain ⟨m, a', ha', hecho⟩ := hp i a ha hfound.append.1
        obtain ⟨m', u', hu', hecho'⟩ := ih hu hfound.append.2
        -- One more round is made than on behalf of the matches that follow.
        have houtcome := congrArg (Outcome.map (tree :: ·)) hecho'.outcome
        refine ⟨max m m' + 1, _, ?_,
          .cons hecho hecho' (houtcome.trans (Outcome.shift_map _ d _).symm)⟩
        have hfirst := attempt_mono (Nat.le_succ_of_le (Nat.le_max_left m m')) ha'
        have hrest := runMany_extends (attempt_extends (Nat.le_succ_of_le (Nat.le_max_right m m')))
          p' (Nat.le_max_right m m') _ _ hu'
        simp [runMany, hfirst, hecho.outcome, ho, hj, Outcome.shift, hrest]

namespace Echoed

variable {p p' : Parser}

/-- Steps that are echoed make for runs that are echoed. -/
theorem of_step (hlabel : p'.label? = p.label?)
    (h : ∀ i s, step (attempt store tokens n) store tokens n p i = some s →
      (p.isElem → tokenAt? tokens' (i + d) = tokenAt? tokens i) →
      FoundAt tokens tokens' d (Attempt.indicesOfAll isElem s.attempts) →
      ∃ m s', step (attempt store' tokens' m) store' tokens' m p' (i + d) = some s' ∧
        s.Echoes d s') : Echoed store store' tokens tokens' d (n + 1) p p' := by
  intro i a ha hfound
  simp only [attempt, Option.map_eq_some_iff] at ha
  obtain ⟨s, hs, rfl⟩ := ha
  have hown (hp : p.isElem) : tokenAt? tokens' (i + d) = tokenAt? tokens i :=
    hfound i (by simp [Attempt.indicesOf, hp])
  obtain ⟨m, s', hs', hecho⟩ := h i s hs hown hfound.append.2
  refine ⟨m + 1, ⟨p', i + d, s'.attempts, s'.outcome⟩, by simp [attempt, hs'], hecho.outcome, ?_⟩
  rw [Attempt.calls_eq, Attempt.calls_eq, hlabel, hecho.calls, shiftCalls_append]
  cases p.label? <;> rfl

theorem namedLeft (h : Echoed store store' tokens tokens' d n p p') (name : String) :
    Echoed store store' tokens tokens' d (n + 1) (.named name p) p' := by
  intro i a ha hfound
  rw [attempt_named, Option.map_eq_some_iff] at ha
  obtain ⟨b, hb, rfl⟩ := ha
  obtain ⟨m, a', ha', hecho⟩ := h i b hb hfound.append.2.append.1
  exact ⟨m, a', ha', hecho.outcome, hecho.calls⟩

theorem namedRight (h : Echoed store store' tokens tokens' d n p p') (name : String) :
    Echoed store store' tokens tokens' d n p (.named name p') := by
  intro i a ha hfound
  obtain ⟨m, a', ha', hecho⟩ := h i a ha hfound
  refine ⟨m + 1, ⟨.named name p', i + d, [a'], a'.outcome⟩, ?_, hecho.outcome, hecho.calls⟩
  rw [attempt_named, ha', Option.map_some]

end Echoed

/-- The runs of similar parsers are echoed. The recursion is on the budget, and on the second parser
where a name is left out there. -/
theorem echoed_of_similar {R : Nat → Nat → Prop} (hstore : store.Similar R store') (n : Nat)
    {p p' : Parser} (h : Similar R p p') : Echoed store store' tokens tokens' d n p p' := by
  match n, h with
  | n, .namedRight h => exact (echoed_of_similar hstore n h).namedRight _
  | 0, _ =>
    intro i a ha
    cases ha
  | n + 1, .namedLeft h => exact (echoed_of_similar hstore n h).namedLeft _
  | n + 1, .empty value =>
    refine .of_step rfl fun i s hs _ _ => ?_
    cases hs
    exact ⟨0, _, rfl, .done⟩
  | n + 1, .jump distance value =>
    refine .of_step rfl fun i s hs _ _ => ⟨0, _, rfl, ?_⟩
    cases hs
    rw [show i + d + distance = i + distance + d by omega]
    exact .done
  | n + 1, .elem kind =>
    refine .of_step rfl fun i s hs htoken _ => ?_
    simp only [step, htoken rfl] at hs ⊢
    cases ht : tokenAt? tokens i with
    | none =>
      simp only [ht, Option.some.injEq] at hs
      subst hs
      exact ⟨0, _, rfl, .done⟩
    | some t =>
      simp only [ht, Option.some.injEq] at hs
      subst hs
      refine ⟨0, _, rfl, ?_, rfl⟩
      by_cases hkind : t.kind = kind
      · simp [Stretch.done, hkind, Outcome.shift, Int.add_right_comm]
      · simp [Stretch.done, hkind, Outcome.shift]
  | n + 1, .pair hp hq =>
    refine .of_step rfl fun i s hs _ hfound => ?_
    rw [step_pair, Option.map_eq_some_iff] at hs
    obtain ⟨u, hu, rfl⟩ := hs
    have hparts := List.Forall₂.cons (echoed_of_similar hstore n hp)
      (.cons (echoed_of_similar hstore n hq) .nil)
    obtain ⟨m, u', hu', hecho⟩ := runSequence_echoed hparts hu hfound
    exact ⟨m, _, by rw [step_pair, hu', Option.map_some], hecho.refine _⟩
  | n + 1, .sequence hps =>
    refine .of_step rfl fun i s hs _ hfound => ?_
    simp only [step, Option.map_eq_some_iff] at hs
    obtain ⟨u, hu, rfl⟩ := hs
    have hparts := hps.imp fun _ _ hp => echoed_of_similar hstore n hp
    obtain ⟨m, u', hu', hecho⟩ := runSequence_echoed hparts hu hfound
    exact ⟨m, _, by rw [step, hu', Option.map_some], hecho.map _⟩
  | n + 1, .many hp =>
    refine .of_step rfl fun i s hs _ hfound => ?_
    simp only [step, Option.map_eq_some_iff] at hs
    obtain ⟨u, hu, rfl⟩ := hs
    obtain ⟨m, u', hu', hecho⟩ := runMany_echoed (echoed_of_similar hstore n hp) hu hfound
    exact ⟨m, _, by rw [step, hu', Option.map_some], hecho.map _⟩
  | n + 1, .choice hps =>
    refine .of_step rfl fun i s hs _ hfound => ?_
    have hparts := hps.imp fun _ _ hp => echoed_of_similar hstore n hp
    exact runChoice_echoed hparts hs hfound
  | n + 1, .transform (f := f) hp =>
    refine .of_step rfl fun i s hs _ hfound => ?_
    rw [step_transform, Option.map_eq_some_iff] at hs
    obtain ⟨a, ha, rfl⟩ := hs
    obtain ⟨m, a', ha', hecho⟩ := echoed_of_similar hstore n hp i a ha hfound.append.1
    refine ⟨m, ⟨[a'], a'.outcome.refine f⟩, by rw [step_transform, ha', Option.map_some], ?_⟩
    exact .single hecho (by rw [hecho.outcome, Outcome.shift_refine])
  | n + 1, .forward hplace =>
    refine .of_step rfl fun i s hs _ hfound => ?_
    rw [step_forward] at hs
    rcases hstore _ _ hplace with ⟨body, body', hbody, hbody', hsimilar⟩ | ⟨name, hname, hname'⟩
    · simp only [hbody, Option.map_eq_some_iff] at hs
      obtain ⟨a, ha, rfl⟩ := hs
      obtain ⟨m, a', ha', hecho⟩ := echoed_of_similar hstore n hsimilar i a ha hfound.append.1
      refine ⟨m, Stretch.single a', ?_, .single hecho hecho.outcome⟩
      simp only [step_forward, hbody', ha', Option.map_some]
    · simp only [hname, Option.some.injEq] at hs
      subst hs
      refine ⟨0, _, ?_, .done⟩
      simp only [step_forward, hname', Outcome.shift]
  | n + 1, .probe hp =>
    refine .of_step rfl fun i s hs _ hfound => ?_
    simp only [step, Option.map_eq_some_iff] at hs
    obtain ⟨a, ha, rfl⟩ := hs
    obtain ⟨m, a', ha', hecho⟩ := echoed_of_similar hstore n hp i a ha hfound.append.1
    exact ⟨m, Stretch.single a', by rw [step, ha', Option.map_some], .single hecho hecho.outcome⟩
termination_by (n, sizeOf p')

end

/-- The runs of similar parsers on the same tokens end alike, and make the same calls. -/
theorem attempt_of_similar {store store' : Store} {tokens : Array Token} {R : Nat → Nat → Prop}
    (hstore : store.Similar R store') {p p' : Parser} (h : Similar R p p') {n : Nat} {i : Int}
    {a : Attempt} (ha : attempt store tokens n p i = some a) :
    ∃ m a', attempt store' tokens m p' i = some a' ∧ a'.outcome = a.outcome ∧
      a'.calls = a.calls := by
  have hfound : FoundAt tokens tokens 0 (a.indicesOf isElem) := fun k _ => by rw [Int.add_zero]
  obtain ⟨m, a', ha', hecho⟩ := echoed_of_similar hstore n h i a ha hfound
  rw [Int.add_zero] at ha'
  refine ⟨m, a', ha', ?_, ?_⟩
  · rw [hecho.outcome, Outcome.shift_zero]
  · rw [hecho.calls, shiftCalls_zero]

/-! ### Positions and tokens -/

mutual

theorem Similar.refl : ∀ p : Parser, Similar Eq p p
  | empty value => .empty value
  | elem kind => .elem kind
  | pair first second _ => .pair (Similar.refl first) (Similar.refl second)
  | sequence parts => .sequence (forall₂_similar_refl parts)
  | many inner => .many (Similar.refl inner)
  | choice alternatives => .choice (forall₂_similar_refl alternatives)
  | transform inner _ => .transform (Similar.refl inner)
  | forward _ => .forward rfl
  | probe _ inner => .probe (Similar.refl inner)
  | jump distance value => .jump distance value
  | named _ inner => .namedLeft (.namedRight (Similar.refl inner))

theorem forall₂_similar_refl : ∀ ps : List Parser, List.Forall₂ (Similar Eq) ps ps
  | [] => .nil
  | p :: ps => .cons (Similar.refl p) (forall₂_similar_refl ps)

end

end Parser

theorem Store.Similar.refl (store : Store) : store.Similar Eq store := by
  rintro place _ rfl
  cases h : store.resolve place with
  | ok body => exact .inl ⟨body, body, rfl, rfl, .refl body⟩
  | error name => exact .inr ⟨name, rfl, rfl⟩

namespace Parser

/-- A run sees nothing of the tokens but those it tries, and of its index nothing but how far others
are from it. Where other tokens hold, at the same distance from another index, whatever the run has
tried, or nothing where it has found nothing, the run from there ends as well: with the same tree
behind as many tokens, with a failure or with the same error; and it makes the same calls, each as
far from its index. -/
theorem run_sees_tried_tokens {store : Store} {tokens tokens' : Array Token} {p : Parser}
    {i i' : Int} {n : Nat} {a : Attempt} (ha : attempt store tokens n p i = some a)
    (hfound : ∀ k ∈ a.indicesOf isElem, tokenAt? tokens' (k + (i' - i)) = tokenAt? tokens k) :
    ∃ m a', attempt store tokens' m p i' = some a' ∧
      a'.outcome = a.outcome.shift (i' - i) ∧ a'.calls = shiftCalls (i' - i) a.calls := by
  obtain ⟨m, a', ha', hecho⟩ := echoed_of_similar (.refl store) n (.refl p) i a ha hfound
  rw [show i + (i' - i) = i' by omega] at ha'
  exact ⟨m, a', ha', hecho.outcome, hecho.calls⟩

theorem run_sees_tried_tokens_nested :
    let opening : Token := ⟨.leftParen, "(", .absent, none⟩
    let word : Token := ⟨.and, "AND", .absent, none⟩
    let tokens : Array Token := #[opening, word, opening, word]
    let tokens' : Array Token := #[word, opening, word, opening]
    let p : Parser := .probe "word" (.choice [.elem .and, .sequence [.elem .leftParen, .forward 0]])
    let store : Store := [⟨none, some p⟩]
    ∃ a, attempt store tokens 8 p 0 = some a ∧
      a.outcome = .matched (.list [.token opening, .token word]) 2 ∧
      (∀ k ∈ a.indicesOf isElem, tokenAt? tokens' (k + (1 - 0)) = tokenAt? tokens k) ∧
      ∃ m a', attempt store tokens' m p 1 = some a' ∧
        a'.outcome = .matched (.list [.token opening, .token word]) 3 ∧
        a'.calls = [("word", 1), ("word", 2)] := by
  intro opening word tokens tokens' p store
  obtain ⟨a, ha, ho, hcalls, hindices⟩ : ∃ a, attempt store tokens 8 p 0 = some a ∧
      a.outcome = .matched (.list [.token opening, .token word]) 2 ∧
      a.calls = [("word", 0), ("word", 1)] ∧ a.indicesOf isElem = [0, 0, 1] :=
    ⟨_, rfl, rfl, rfl, rfl⟩
  have hfound : ∀ k ∈ a.indicesOf isElem,
      tokenAt? tokens' (k + (1 - 0)) = tokenAt? tokens k := by
    rw [hindices]
    simp only [List.forall_mem_cons]
    exact ⟨rfl, rfl, rfl, List.forall_mem_nil _⟩
  obtain ⟨m, a', ha', ho', hcalls'⟩ := run_sees_tried_tokens ha hfound
  refine ⟨a, ha, ho, hfound, m, a', ha', ?_, ?_⟩
  · rw [ho', ho]
    rfl
  · rw [hcalls', hcalls]
    rfl

end Parser

end Conditions
