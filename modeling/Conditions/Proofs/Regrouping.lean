import Conditions.Proofs.ParserCourses

/-!
# Regrouped parsers

The course of a parser is that of its parts, put together. An alternative that is a choice itself
may therefore be replaced by its alternatives, and a part that is a sequence by its parts, wherever
they stand: in the parser or in what has been supplied for a forward.

Where sequences are grouped, the trees are grouped alike. Nothing but a function on trees can tell
the difference, by refusing a tree.
-/

namespace Conditions

namespace Parser

section
variable {store : Store} {tokens : Array Token}

theorem courseInTurn_append (ps qs : List Parser) :
    courseInTurn store tokens (ps ++ qs) =
      Course.andThen (courseInTurn store tokens ps) fun trees =>
        (courseInTurn store tokens qs).map (trees ++ ·) := by
  induction ps with
  | nil =>
    rw [courseInTurn_nil, Course.stay_andThen]
    exact (Course.map_id fun trees => List.nil_append trees).symm
  | cons p ps ih =>
    simp only [List.cons_append, courseInTurn_cons, ih, Course.andThen_assoc, Course.map_andThen,
      Course.andThen_map, Course.map_map]
    rfl

theorem courseAsChoice_append (ps qs : List Parser) :
    courseAsChoice store tokens (ps ++ qs) =
      Course.orElse (courseAsChoice store tokens ps) (courseAsChoice store tokens qs) := by
  induction ps with
  | nil => rw [courseAsChoice_nil, Course.fail_orElse, List.nil_append]
  | cons p ps ih =>
    rw [List.cons_append, courseAsChoice_cons, courseAsChoice_cons, ih, Course.orElse_assoc]

section
variable {ps qs : List Parser} {i : Int} {calls : List (String × Int)}

theorem course_sequence_matched_iff {tree : Tree} {j : Int} :
    course store tokens (.sequence ps) i (.matched tree j) calls ↔
      ∃ trees, courseInTurn store tokens ps i (.matched trees j) calls ∧ .list trees = tree := by
  rw [course_sequence, Course.map_matched_iff]

theorem course_sequence_append_matched_iff {tree : Tree} {k : Int} :
    course store tokens (.sequence (ps ++ qs)) i (.matched tree k) calls ↔
      ∃ ts us j calls₁ calls₂,
        course store tokens (.sequence ps) i (.matched (.list ts) j) calls₁ ∧
        course store tokens (.sequence qs) j (.matched (.list us) k) calls₂ ∧
        tree = .list (ts ++ us) ∧ calls = calls₁ ++ calls₂ := by
  rw [course_sequence_matched_iff, courseInTurn_append]
  constructor
  · rintro ⟨trees, h, rfl⟩
    obtain ⟨ts, j, calls₁, calls₂, hps, hqs, rfl⟩ := Course.andThen_matched_iff.mp h
    obtain ⟨us, hus, rfl⟩ := Course.map_matched_iff.mp hqs
    exact ⟨ts, us, j, calls₁, calls₂, course_sequence_matched_iff.mpr ⟨ts, hps, rfl⟩,
      course_sequence_matched_iff.mpr ⟨us, hus, rfl⟩, rfl, rfl⟩
  · rintro ⟨ts, us, j, calls₁, calls₂, hps, hqs, rfl, rfl⟩
    obtain ⟨ts, hts, hlist⟩ := course_sequence_matched_iff.mp hps
    cases hlist
    obtain ⟨us, hus, hlist⟩ := course_sequence_matched_iff.mp hqs
    cases hlist
    exact ⟨ts ++ us, .matched hts (Course.map_matched_iff.mpr ⟨us, hus, rfl⟩), rfl⟩

theorem course_sequence_append_failed_iff :
    course store tokens (.sequence (ps ++ qs)) i .failed calls ↔
      course store tokens (.sequence ps) i .failed calls ∨
        ∃ tree j calls₁ calls₂,
          course store tokens (.sequence ps) i (.matched tree j) calls₁ ∧
          course store tokens (.sequence qs) j .failed calls₂ ∧ calls = calls₁ ++ calls₂ := by
  simp only [course_sequence, Course.map_failed_iff, Course.map_matched_iff, courseInTurn_append,
    Course.andThen_failed_iff]
  constructor
  · rintro (h | ⟨ts, j, calls₁, calls₂, hps, hqs, rfl⟩)
    · exact .inl h
    · exact .inr ⟨_, j, calls₁, calls₂, ⟨ts, hps, rfl⟩, hqs, rfl⟩
  · rintro (h | ⟨-, j, calls₁, calls₂, ⟨ts, hps, rfl⟩, hqs, rfl⟩)
    · exact .inl h
    · exact .inr ⟨ts, j, calls₁, calls₂, hps, hqs, rfl⟩

theorem course_sequence_append_raised_iff {e : RunError} :
    course store tokens (.sequence (ps ++ qs)) i (.raised e) calls ↔
      course store tokens (.sequence ps) i (.raised e) calls ∨
        ∃ tree j calls₁ calls₂,
          course store tokens (.sequence ps) i (.matched tree j) calls₁ ∧
          course store tokens (.sequence qs) j (.raised e) calls₂ ∧
          calls = calls₁ ++ calls₂ := by
  simp only [course_sequence, Course.map_raised_iff, Course.map_matched_iff, courseInTurn_append,
    Course.andThen_raised_iff]
  constructor
  · rintro (h | ⟨ts, j, calls₁, calls₂, hps, hqs, rfl⟩)
    · exact .inl h
    · exact .inr ⟨_, j, calls₁, calls₂, ⟨ts, hps, rfl⟩, hqs, rfl⟩
  · rintro (h | ⟨-, j, calls₁, calls₂, ⟨ts, hps, rfl⟩, hqs, rfl⟩)
    · exact .inl h
    · exact .inr ⟨ts, j, calls₁, calls₂, hps, hqs, rfl⟩

end

theorem shape_courseInTurn_cons (p : Parser) (ps : List Parser) :
    (courseInTurn store tokens (p :: ps)).shape =
      Course.andThen (course store tokens p).shape fun _ =>
        (courseInTurn store tokens ps).shape := by
  rw [courseInTurn_cons]
  exact Course.shape_andThen fun tree => Course.shape_map _

theorem shape_courseInTurn_append (ps qs : List Parser) :
    (courseInTurn store tokens (ps ++ qs)).shape =
      Course.andThen (courseInTurn store tokens ps).shape fun _ =>
        (courseInTurn store tokens qs).shape := by
  rw [courseInTurn_append]
  exact Course.shape_andThen fun trees => Course.shape_map _

end

/-- The two parsers differ in the grouping of alternatives, and, unless the trees are to be kept, of
parsers one behind the other, in any number of places. -/
inductive Regrouped : (kept : Bool) → Parser → Parser → Prop where
  | refl {kept : Bool} (p : Parser) : Regrouped kept p p
  | symm {kept : Bool} {p q : Parser} : Regrouped kept p q → Regrouped kept q p
  | trans {kept : Bool} {p q r : Parser} :
      Regrouped kept p q → Regrouped kept q r → Regrouped kept p r
  | ofKept {p q : Parser} : Regrouped true p q → Regrouped false p q
  | choice {kept : Bool} (ps qs rs : List Parser) :
      Regrouped kept (.choice (ps ++ .choice qs :: rs)) (.choice (ps ++ qs ++ rs))
  | choiceOfOne {kept : Bool} (p : Parser) : Regrouped kept (.choice [p]) p
  | sequence (ps qs rs : List Parser) :
      Regrouped false (.sequence (ps ++ .sequence qs :: rs)) (.sequence (ps ++ qs ++ rs))
  | sequenceOfOne (p : Parser) : Regrouped false (.sequence [p]) p
  | inChoice {kept : Bool} {p p' : Parser} (ps qs : List Parser) :
      Regrouped kept p p' → Regrouped kept (.choice (ps ++ p :: qs)) (.choice (ps ++ p' :: qs))
  | inSequence {kept : Bool} {p p' : Parser} (ps qs : List Parser) :
      Regrouped kept p p' → Regrouped kept (.sequence (ps ++ p :: qs)) (.sequence (ps ++ p' :: qs))
  | inPair {kept : Bool} {p p' q q' : Parser} {combine : Tree → Tree → Except Refusal Tree} :
      (kept = false → ∀ x y, ∃ tree, combine x y = .ok tree) →
      Regrouped kept p p' → Regrouped kept q q' →
      Regrouped kept (.pair p q combine) (.pair p' q' combine)
  | inMany {kept : Bool} {p p' : Parser} :
      Regrouped kept p p' → Regrouped kept (.many p) (.many p')
  | inProbe {kept : Bool} {p p' : Parser} (label : String) :
      Regrouped kept p p' → Regrouped kept (.probe label p) (.probe label p')
  | inNamed {kept : Bool} {p p' : Parser} (name : String) :
      Regrouped kept p p' → Regrouped kept (.named name p) (.named name p')
  | inTransform {kept : Bool} {p p' : Parser} {f : Tree → Except Refusal Tree} :
      (kept = false → ∀ tree, ∃ tree', f tree = .ok tree') →
      Regrouped kept p p' → Regrouped kept (.transform p f) (.transform p' f)

section
variable {store : Store} {tokens : Array Token}

theorem combinePair_total {combine : Tree → Tree → Except Refusal Tree}
    (h : ∀ x y, ∃ tree, combine x y = .ok tree) (trees : List Tree) :
    ∃ tree, combinePair combine trees = .ok tree := by
  unfold combinePair
  split
  · exact h _ _
  · exact ⟨.absent, rfl⟩

theorem Regrouped.agree {kept : Bool} {p p' : Parser} (h : Regrouped kept p p') :
    (course store tokens p).Agree kept (course store tokens p') := by
  induction h with
  | refl p => exact .of_eq rfl
  | symm _ ih => exact ih.symm
  | trans _ _ ih ih' => exact ih.trans ih'
  | ofKept _ ih => exact .of_eq (ih.eq rfl)
  | choice ps qs rs =>
    apply Course.Agree.of_eq
    simp only [course_choice, courseAsChoice_append, courseAsChoice_cons, Course.orElse_assoc]
  | choiceOfOne p =>
    apply Course.Agree.of_eq
    rw [course_choice, courseAsChoice_cons, courseAsChoice_nil, Course.orElse_fail]
  | sequence ps qs rs =>
    -- The tree of the inner sequence is a list in that of the outer one; the shapes are the same.
    apply Course.Agree.of_shape
    simp only [course_sequence, Course.shape_map, shape_courseInTurn_append,
      shape_courseInTurn_cons, Course.andThen_assoc]
  | sequenceOfOne p =>
    apply Course.Agree.of_shape
    rw [course_sequence, Course.shape_map, shape_courseInTurn_cons, courseInTurn_nil,
      Course.shape_stay, Course.shape_andThen_stay]
  | inChoice ps qs _ ih =>
    simp only [course_choice, courseAsChoice_append, courseAsChoice_cons]
    exact ⟨fun hkept => by rw [ih.eq hkept], by simp only [Course.shape_orElse, ih.shape]⟩
  | inSequence ps qs _ ih =>
    simp only [course_sequence]
    refine ⟨fun hkept => ?_, ?_⟩
    · simp only [courseInTurn_append, courseInTurn_cons, ih.eq hkept]
    · simp only [Course.shape_map, shape_courseInTurn_append, shape_courseInTurn_cons, ih.shape]
  | @inPair kept p p' q q' combine hcombine _ _ ih ih' =>
    simp only [course_pair]
    cases kept with
    | true =>
      apply Course.Agree.of_eq
      simp only [courseInTurn_cons, ih.eq rfl, ih'.eq rfl]
    | false =>
      apply Course.Agree.of_shape
      simp only [Course.shape_refine (combinePair_total (hcombine rfl)), shape_courseInTurn_cons,
        ih.shape, ih'.shape]
  | inMany _ ih =>
    simp only [course_many]
    refine ⟨fun hkept => by rw [ih.eq hkept], ?_⟩
    rw [Course.shape_map, Course.shape_map, Course.shape_repeated, ih.shape,
      ← Course.shape_repeated]
  | inProbe label _ ih =>
    simp only [course_probe]
    exact ⟨fun hkept => by rw [ih.eq hkept], by simp only [Course.shape_called, ih.shape]⟩
  | inNamed name _ ih =>
    simp only [course_named]
    exact ih
  | @inTransform kept p p' f hf _ ih =>
    cases kept with
    | true =>
      apply Course.Agree.of_eq
      rw [course_transform, course_transform, ih.eq rfl]
    | false =>
      -- The trees may differ, but none of them is refused.
      apply Course.Agree.of_shape
      simp only [course_transform, Course.shape_refine (hf rfl), ih.shape]

end

/-! ## What has been supplied for forwards -/

mutual

/-- No function in the parser refuses a tree. -/
def RefusesNothing : Parser → Prop
  | empty _ | elem _ | jump _ _ | forward _ => True
  | pair first second combine =>
    first.RefusesNothing ∧ second.RefusesNothing ∧ ∀ x y, ∃ tree, combine x y = .ok tree
  | sequence parts | choice parts => AllRefuseNothing parts
  | many inner | probe _ inner | named _ inner => inner.RefusesNothing
  | transform inner f => inner.RefusesNothing ∧ ∀ tree, ∃ tree', f tree = .ok tree'

/-- No function in the parsers refuses a tree. -/
def AllRefuseNothing : List Parser → Prop
  | [] => True
  | p :: ps => p.RefusesNothing ∧ AllRefuseNothing ps

end

theorem allRefuseNothing_iff {ps : List Parser} :
    AllRefuseNothing ps ↔ ∀ p ∈ ps, p.RefusesNothing := by
  induction ps with
  | nil => simp [AllRefuseNothing]
  | cons p ps ih => simp [AllRefuseNothing, ih]

/-- Grouping leaves the functions of a parser as they are. -/
theorem Regrouped.refusesNothing_iff {kept : Bool} {p p' : Parser} (h : Regrouped kept p p') :
    p.RefusesNothing ↔ p'.RefusesNothing := by
  induction h with
  | refl p => rfl
  | symm _ ih => exact ih.symm
  | trans _ _ ih ih' => exact ih.trans ih'
  | ofKept _ ih => exact ih
  | choice ps qs rs | sequence ps qs rs =>
    simp only [RefusesNothing, allRefuseNothing_iff, List.forall_mem_append, List.forall_mem_cons,
      and_assoc]
  | choiceOfOne p | sequenceOfOne p =>
    simp only [RefusesNothing, AllRefuseNothing, and_true]
  | inChoice ps qs _ ih | inSequence ps qs _ ih =>
    simp only [RefusesNothing, allRefuseNothing_iff, List.forall_mem_append, List.forall_mem_cons,
      ih]
  | inPair _ _ _ ih ih' => simp only [RefusesNothing, ih, ih']
  | inMany _ ih | inProbe _ _ ih | inNamed _ _ ih => exact ih
  | inTransform _ _ ih => simp only [RefusesNothing, ih]

end Parser

/-- Place by place, the stores hold regrouped parsers, or are without a parser and have the same
name. -/
def Store.Regrouped (kept : Bool) (store store' : Store) : Prop :=
  ∀ place,
    (∃ body body', store.resolve place = .ok body ∧ store'.resolve place = .ok body' ∧
      body.Regrouped kept body') ∨
    ∃ name, store.resolve place = .error name ∧ store'.resolve place = .error name

/-- No function in what has been supplied refuses a tree. -/
def Store.RefusesNothing (store : Store) : Prop :=
  ∀ place body, store.resolve place = .ok body → body.RefusesNothing

namespace Store

variable {kept : Bool} {store store' : Store}

theorem Regrouped.symm (h : store.Regrouped kept store') : store'.Regrouped kept store := by
  intro place
  rcases h place with ⟨body, body', hbody, hbody', hregrouped⟩ | ⟨name, hname, hname'⟩
  · exact .inl ⟨body', body, hbody', hbody, hregrouped.symm⟩
  · exact .inr ⟨name, hname', hname⟩

theorem Regrouped.refusesNothing (h : store.Regrouped kept store') (hstore : store.RefusesNothing) :
    store'.RefusesNothing := by
  intro place body hbody
  rcases h place with ⟨body₀, body', hbody₀, hbody', hregrouped⟩ | ⟨name, -, hname'⟩
  · rw [hbody'] at hbody
    cases hbody
    exact hregrouped.refusesNothing_iff.mp (hstore place body₀ hbody₀)
  · rw [hname'] at hbody
    cases hbody

end Store

namespace Parser

section
variable {kept : Bool} {store store' : Store} {tokens : Array Token} {n : Nat}

/-- A run within the budget goes as some run with the other store does. -/
def Followed (kept : Bool) (store store' : Store) (tokens : Array Token) (n : Nat) (p : Parser) :
    Prop :=
  ∀ i a, attempt store tokens n p i = some a →
    ∃ o, course store' tokens p i o a.calls ∧ a.outcome.Agree kept o

theorem courseInTurn_of_followed {ps : List Parser}
    (h : ∀ p ∈ ps, Followed kept store store' tokens n p) {i : Int} {s : Stretch (List Tree)}
    (hs : runSequence (attempt store tokens n) ps i = some s) :
    ∃ o, courseInTurn store' tokens ps i o (Attempt.callsOfAll s.attempts) ∧
      s.outcome.Agree kept o := by
  induction ps generalizing i s with
  | nil =>
    cases hs
    rw [courseInTurn_nil]
    exact ⟨_, ⟨rfl, rfl⟩, .refl _⟩
  | cons p ps ih =>
    rw [List.forall_mem_cons] at h
    rw [runSequence_cons, Option.bind_eq_some_iff] at hs
    obtain ⟨a, ha, hs⟩ := hs
    obtain ⟨o, hcourse, hagree⟩ := h.1 i a ha
    rw [courseInTurn_cons]
    cases ho : a.outcome with
    | matched tree j =>
      simp only [ho, Option.map_eq_some_iff] at hs
      obtain ⟨u, hu, rfl⟩ := hs
      rw [ho] at hagree
      cases hagree with
      | matched j htree =>
        obtain ⟨o', hrest, hagree'⟩ := ih h.2 hu
        rw [Attempt.callsOfAll_cons]
        exact ⟨_, .matched hcourse ⟨o', hrest, rfl⟩, hagree'.map fun hkept => by rw [htree hkept]⟩
    | failed =>
      simp only [ho, Option.some.injEq] at hs
      subst hs
      rw [ho] at hagree
      cases hagree
      exact ⟨_, .failed hcourse, .failed⟩
    | raised e =>
      simp only [ho, Option.some.injEq] at hs
      subst hs
      rw [ho] at hagree
      cases hagree
      exact ⟨_, .raised hcourse, .raised e⟩

theorem courseAsChoice_of_followed {ps : List Parser}
    (h : ∀ p ∈ ps, Followed kept store store' tokens n p) {i : Int} {s : Stretch Tree}
    (hs : runChoice (attempt store tokens n) ps i = some s) :
    ∃ o, courseAsChoice store' tokens ps i o (Attempt.callsOfAll s.attempts) ∧
      s.outcome.Agree kept o := by
  induction ps generalizing s with
  | nil =>
    cases hs
    rw [courseAsChoice_nil]
    exact ⟨_, ⟨rfl, rfl⟩, .refl _⟩
  | cons p ps ih =>
    rw [List.forall_mem_cons] at h
    simp only [runChoice, Option.bind_eq_bind, Option.bind_eq_some_iff] at hs
    obtain ⟨a, ha, hs⟩ := hs
    obtain ⟨o, hcourse, hagree⟩ := h.1 i a ha
    rw [courseAsChoice_cons]
    cases ho : a.outcome with
    | matched tree j =>
      simp only [ho, Option.some.injEq] at hs
      subst hs
      rw [ho] at hagree
      cases hagree with
      | matched j htree => exact ⟨_, .matched hcourse, .matched j htree⟩
    | failed =>
      simp only [ho, Option.map_eq_some_iff] at hs
      obtain ⟨u, hu, rfl⟩ := hs
      rw [ho] at hagree
      cases hagree
      obtain ⟨o', hrest, hagree'⟩ := ih h.2 hu
      rw [Attempt.callsOfAll_cons]
      exact ⟨o', .failed hcourse hrest, hagree'⟩
    | raised e =>
      simp only [ho, Option.some.injEq] at hs
      subst hs
      rw [ho] at hagree
      cases hagree
      exact ⟨_, .raised hcourse, .raised e⟩

/-- The induction is on the number of rounds. -/
theorem repeated_of_followed {p : Parser} (h : Followed kept store store' tokens n p) {rounds : Nat}
    {i : Int} {s : Stretch (List Tree)}
    (hs : runMany (attempt store tokens n) p rounds i = some s) :
    ∃ o, Course.repeated (course store' tokens p) i o (Attempt.callsOfAll s.attempts) ∧
      s.outcome.Agree kept o := by
  induction rounds generalizing i s with
  | zero => cases hs
  | succ rounds ih =>
    simp only [runMany, Option.bind_eq_bind, Option.bind_eq_some_iff] at hs
    obtain ⟨a, ha, hs⟩ := hs
    obtain ⟨o, hcourse, hagree⟩ := h i a ha
    cases ho : a.outcome with
    | failed =>
      simp only [ho, Option.some.injEq] at hs
      subst hs
      rw [ho] at hagree
      cases hagree
      exact ⟨_, .failed hcourse, .refl _⟩
    | raised e =>
      simp only [ho, Option.some.injEq] at hs
      subst hs
      rw [ho] at hagree
      cases hagree
      exact ⟨_, .raised hcourse, .raised e⟩
    | matched tree j =>
      simp only [ho] at hs
      rw [ho] at hagree
      cases hagree with
      | matched j htree =>
        by_cases hj : j = i
        · simp only [hj, if_true, Option.some.injEq] at hs
          subst hs hj
          exact ⟨_, .stays hcourse, .refl _⟩
        · simp only [hj, if_false, Option.map_eq_some_iff] at hs
          obtain ⟨u, hu, rfl⟩ := hs
          obtain ⟨o', hrest, hagree'⟩ := ih hu
          rw [Attempt.callsOfAll_cons]
          exact ⟨_, .again hcourse hj hrest, hagree'.map fun hkept => by rw [htree hkept]⟩

/-- Runs with one store go as runs with the other one do. The induction is on the budget; at a
forward, the parser that the other store holds is run in place of a regrouped one. -/
theorem followed_of_regrouped (hstore : store.Regrouped kept store')
    (hrefuses : kept = false → store.RefusesNothing) (n : Nat) :
    ∀ p : Parser, (kept = false → p.RefusesNothing) → Followed kept store store' tokens n p := by
  induction n with
  | zero =>
    intro p _ i a ha
    cases ha
  | succ n ih =>
    intro p hp i a ha
    simp only [attempt, Option.map_eq_some_iff] at ha
    obtain ⟨s, hs, rfl⟩ := ha
    rw [Attempt.calls_eq]
    cases p with
    | empty value | elem kind | jump distance value =>
      -- Such a step sees nothing of the store, nor of the budget.
      exact ⟨s.outcome, course_iff.mpr ⟨_, ⟨0, s, hs, rfl, rfl⟩, rfl⟩, .refl _⟩
    | pair p q combine =>
      rw [step_pair, Option.map_eq_some_iff] at hs
      obtain ⟨u, hu, rfl⟩ := hs
      have hparts : ∀ p' ∈ [p, q], Followed kept store store' tokens n p' := by
        simp only [List.forall_mem_cons, List.not_mem_nil, false_imp_iff, implies_true, and_true]
        exact ⟨ih p fun hkept => (hp hkept).1, ih q fun hkept => (hp hkept).2.1⟩
      obtain ⟨o, hcourse, hagree⟩ := courseInTurn_of_followed hparts hu
      rw [course_pair]
      exact ⟨_, ⟨o, hcourse, rfl⟩, hagree.refine fun hkept => combinePair_total (hp hkept).2.2⟩
    | sequence ps =>
      simp only [step, Option.map_eq_some_iff] at hs
      obtain ⟨u, hu, rfl⟩ := hs
      have hparts : ∀ p ∈ ps, Followed kept store store' tokens n p :=
        fun p hmem => ih p fun hkept => allRefuseNothing_iff.mp (hp hkept) p hmem
      obtain ⟨o, hcourse, hagree⟩ := courseInTurn_of_followed hparts hu
      rw [course_sequence]
      exact ⟨_, ⟨o, hcourse, rfl⟩, hagree.map fun _ => rfl⟩
    | many p =>
      simp only [step, Option.map_eq_some_iff] at hs
      obtain ⟨u, hu, rfl⟩ := hs
      obtain ⟨o, hcourse, hagree⟩ := repeated_of_followed (ih p hp) hu
      rw [course_many]
      exact ⟨_, ⟨o, hcourse, rfl⟩, hagree.map fun _ => rfl⟩
    | choice ps =>
      have hparts : ∀ p ∈ ps, Followed kept store store' tokens n p :=
        fun p hmem => ih p fun hkept => allRefuseNothing_iff.mp (hp hkept) p hmem
      rw [course_choice]
      exact courseAsChoice_of_followed hparts hs
    | transform p f =>
      rw [step_transform, Option.map_eq_some_iff] at hs
      obtain ⟨a, ha, rfl⟩ := hs
      obtain ⟨o, hcourse, hagree⟩ := ih p (fun hkept => (hp hkept).1) i a ha
      rw [course_transform]
      exact ⟨_, ⟨o, hcourse, rfl⟩, hagree.refine fun hkept => (hp hkept).2⟩
    | forward place =>
      rw [step_forward] at hs
      rcases hstore place with ⟨body, body', hbody, hbody', hregrouped⟩ | ⟨name, hname, hname'⟩
      · simp only [hbody, Option.map_eq_some_iff] at hs
        obtain ⟨a, ha, rfl⟩ := hs
        obtain ⟨o, hcourse, hagree⟩ :=
          ih body (fun hkept => hrefuses hkept place body hbody) i a ha
        obtain ⟨o', hcourse', hagree'⟩ := hregrouped.agree.exists_agree hcourse
        rw [course_forward, hbody']
        exact ⟨o', hcourse', hagree.trans hagree'⟩
      · simp only [hname, Option.some.injEq] at hs
        subst hs
        rw [course_forward, hname']
        exact ⟨_, ⟨rfl, rfl⟩, .refl _⟩
    | probe label p =>
      simp only [step, Option.map_eq_some_iff] at hs
      obtain ⟨a, ha, rfl⟩ := hs
      obtain ⟨o, hcourse, hagree⟩ := ih p hp i a ha
      rw [course_probe]
      exact ⟨o, ⟨_, hcourse, rfl⟩, hagree⟩
    | named name p =>
      simp only [step, Option.map_eq_some_iff] at hs
      obtain ⟨a, ha, rfl⟩ := hs
      obtain ⟨o, hcourse, hagree⟩ := ih p hp i a ha
      rw [course_named]
      exact ⟨o, hcourse, hagree⟩

/-- Regrouped parsers agree, also where parsers that have been supplied for forwards are regrouped.
Where trees are not kept, no function may refuse one. -/
theorem Regrouped.agree_of_stores {p p' : Parser} (h : Regrouped kept p p')
    (hstore : store.Regrouped kept store')
    (hrefuses : kept = false → p.RefusesNothing ∧ store.RefusesNothing) :
    (course store tokens p).Agree kept (course store' tokens p') := by
  have hsame : (course store tokens p).Agree kept (course store' tokens p) := by
    apply Course.Agree.of_exists_agree
    · rintro i - - ⟨n, a, ha, rfl, rfl⟩
      exact followed_of_regrouped hstore (fun hkept => (hrefuses hkept).2) n p
        (fun hkept => (hrefuses hkept).1) i a ha
    · rintro i - - ⟨n, a, ha, rfl, rfl⟩
      exact followed_of_regrouped hstore.symm
        (fun hkept => hstore.refusesNothing (hrefuses hkept).2) n p
        (fun hkept => (hrefuses hkept).1) i a ha
  exact hsame.trans h.agree

end

end Parser

end Conditions
