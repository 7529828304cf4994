import Conditions.Proofs.Indices
import Mathlib.Tactic.Choose

/-!
# Courses

What is seen of a run from outside is its course: how it ends, and which calls of labelled parsers
it makes. The course of a parser is put together from the courses of its parts: one follows another,
or takes the place of one that fails, or is repeated. Courses that follow one another may be grouped
as one likes, and so may those that take each other's place.
-/

namespace Conditions

theorem Outcome.map_map {α β γ : Type} (f : α → β) (g : β → γ) (o : Outcome α) :
    (o.map f).map g = o.map (g ∘ f) := by
  cases o <;> rfl

/-- The outcomes are the same, or, if values are not kept, at least of the same shape. -/
inductive Outcome.Agree {α : Type} (kept : Bool) : Outcome α → Outcome α → Prop where
  | matched {x y : α} (j : Int) :
      (kept = true → x = y) → Agree kept (.matched x j) (.matched y j)
  | failed : Agree kept .failed .failed
  | raised (e : RunError) : Agree kept (.raised e) (.raised e)

namespace Outcome.Agree

variable {α β : Type} {kept : Bool} {o o' o'' : Outcome α}

theorem refl : ∀ o : Outcome α, o.Agree kept o
  | .matched _ j => .matched j fun _ => rfl
  | .failed => .failed
  | .raised e => .raised e

theorem trans (h : o.Agree kept o') (h' : o'.Agree kept o'') : o.Agree kept o'' := by
  cases h with
  | matched j hx =>
    cases h' with
    | matched _ hy => exact .matched j fun hkept => (hx hkept).trans (hy hkept)
  | failed | raised e => exact h'

theorem map {f g : α → β} (hfg : kept = true → f = g) (h : o.Agree kept o') :
    (o.map f).Agree kept (o'.map g) := by
  cases h with
  | matched j hx => exact .matched j fun hkept => by rw [hfg hkept, hx hkept]
  | failed => exact .failed
  | raised e => exact .raised e

/-- Values that are not kept may differ, so that none of them may be refused. -/
theorem refine {f : α → Except Refusal β} (hf : kept = false → ∀ x, ∃ y, f x = .ok y)
    (h : o.Agree kept o') : (o.refine f).Agree kept (o'.refine f) := by
  cases kept with
  | true =>
    cases h with
    | matched j hx =>
      rw [hx rfl]
      exact .refl _
    | failed => exact .failed
    | raised e => exact .raised e
  | false =>
    choose g hg using hf rfl
    rw [refine_eq_map hg, refine_eq_map hg]
    exact h.map nofun

theorem eq (h : o.Agree true o') : o = o' := by
  cases h with
  | matched j hx => rw [hx rfl]
  | failed | raised e => rfl

theorem shape (h : o.Agree kept o') : o.map (fun _ => ()) = o'.map fun _ => () := by
  cases h <;> rfl

theorem of_shape (h : o.map (fun _ => ()) = o'.map fun _ => ()) : o.Agree false o' := by
  cases o <;> cases o' <;> cases h
  · exact .matched _ nofun
  · exact .failed
  · exact .raised _

end Outcome.Agree

/-- How runs may go: from an index, to an outcome, with calls of labelled parsers on the way. -/
abbrev Course (α : Type) := Int → Outcome α → List (String × Int) → Prop

namespace Course

variable {α β γ : Type}

theorem ext {C D : Course α} (h : ∀ i o calls, C i o calls ↔ D i o calls) : C = D := by
  funext i o calls
  exact propext (h i o calls)

/-- A match that stays where it is. -/
def stay (x : α) : Course α :=
  fun i o calls => o = .matched x i ∧ calls = []

/-- A failure. -/
def fail : Course α :=
  fun _ o calls => o = .failed ∧ calls = []

/-- The course with its outcome put through a function. -/
def mapOutcome (f : Outcome α → Outcome β) (C : Course α) : Course β :=
  fun i o calls => ∃ o', C i o' calls ∧ f o' = o

/-- The course with its value put through a function. -/
def map (f : α → β) (C : Course α) : Course β :=
  C.mapOutcome (Outcome.map f)

/-- The course behind a call of a labelled parser. -/
def called (label : String) (C : Course α) : Course α :=
  fun i o calls => ∃ calls', C i o calls' ∧ calls = (label, i) :: calls'

/-- A course, and where it ends with a match, another one from there on. -/
inductive andThen (C : Course α) (next : α → Course β) :
    Int → Outcome β → List (String × Int) → Prop where
  | matched {i j : Int} {x : α} {o : Outcome β} {calls calls' : List (String × Int)} :
      C i (.matched x j) calls → next x j o calls' → andThen C next i o (calls ++ calls')
  | failed {i : Int} {calls : List (String × Int)} :
      C i .failed calls → andThen C next i .failed calls
  | raised {i : Int} {e : RunError} {calls : List (String × Int)} :
      C i (.raised e) calls → andThen C next i (.raised e) calls

/-- A course, and if it fails, another one in its place. -/
inductive orElse (C D : Course α) : Int → Outcome α → List (String × Int) → Prop where
  | matched {i j : Int} {x : α} {calls : List (String × Int)} :
      C i (.matched x j) calls → orElse C D i (.matched x j) calls
  | failed {i : Int} {o : Outcome α} {calls calls' : List (String × Int)} :
      C i .failed calls → D i o calls' → orElse C D i o (calls ++ calls')
  | raised {i : Int} {e : RunError} {calls : List (String × Int)} :
      C i (.raised e) calls → orElse C D i (.raised e) calls

/-- A course again and again, until it fails or stays where it is. -/
inductive repeated (C : Course α) : Int → Outcome (List α) → List (String × Int) → Prop where
  | failed {i : Int} {calls : List (String × Int)} :
      C i .failed calls → repeated C i (.matched [] i) calls
  | stays {i : Int} {x : α} {calls : List (String × Int)} :
      C i (.matched x i) calls → repeated C i (.matched [] i) calls
  | raised {i : Int} {e : RunError} {calls : List (String × Int)} :
      C i (.raised e) calls → repeated C i (.raised e) calls
  | again {i j : Int} {x : α} {o : Outcome (List α)} {calls calls' : List (String × Int)} :
      C i (.matched x j) calls → j ≠ i → repeated C j o calls' →
      repeated C i (o.map (x :: ·)) (calls ++ calls')

/-! ## Laws -/

section
variable {C : Course α} {f : α → β} {i : Int} {calls : List (String × Int)}

theorem map_matched_iff {y : β} {j : Int} :
    C.map f i (.matched y j) calls ↔ ∃ x, C i (.matched x j) calls ∧ f x = y := by
  constructor
  · rintro ⟨o, h, ho⟩
    obtain ⟨x, rfl, rfl⟩ := Outcome.map_eq_matched ho
    exact ⟨x, h, rfl⟩
  · rintro ⟨x, h, rfl⟩
    exact ⟨_, h, rfl⟩

theorem map_failed_iff : C.map f i .failed calls ↔ C i .failed calls := by
  constructor
  · rintro ⟨_ | _ | _, h, ho⟩ <;> cases ho
    exact h
  · intro h
    exact ⟨_, h, rfl⟩

theorem map_raised_iff {e : RunError} : C.map f i (.raised e) calls ↔ C i (.raised e) calls := by
  constructor
  · rintro ⟨_ | _ | _, h, ho⟩ <;> cases ho
    exact h
  · intro h
    exact ⟨_, h, rfl⟩

end

section
variable {C : Course α} {D : α → Course β} {i : Int} {calls : List (String × Int)}

theorem andThen_matched_iff {y : β} {k : Int} :
    C.andThen D i (.matched y k) calls ↔
      ∃ x j calls₁ calls₂, C i (.matched x j) calls₁ ∧ D x j (.matched y k) calls₂ ∧
        calls = calls₁ ++ calls₂ := by
  constructor
  · intro h
    cases h with
    | matched h h' => exact ⟨_, _, _, _, h, h', rfl⟩
  · rintro ⟨x, j, calls₁, calls₂, h, h', rfl⟩
    exact .matched h h'

theorem andThen_failed_iff :
    C.andThen D i .failed calls ↔
      C i .failed calls ∨
        ∃ x j calls₁ calls₂, C i (.matched x j) calls₁ ∧ D x j .failed calls₂ ∧
          calls = calls₁ ++ calls₂ := by
  constructor
  · intro h
    cases h with
    | matched h h' => exact .inr ⟨_, _, _, _, h, h', rfl⟩
    | failed h => exact .inl h
  · rintro (h | ⟨x, j, calls₁, calls₂, h, h', rfl⟩)
    · exact .failed h
    · exact .matched h h'

theorem andThen_raised_iff {e : RunError} :
    C.andThen D i (.raised e) calls ↔
      C i (.raised e) calls ∨
        ∃ x j calls₁ calls₂, C i (.matched x j) calls₁ ∧ D x j (.raised e) calls₂ ∧
          calls = calls₁ ++ calls₂ := by
  constructor
  · intro h
    cases h with
    | matched h h' => exact .inr ⟨_, _, _, _, h, h', rfl⟩
    | raised h => exact .inl h
  · rintro (h | ⟨x, j, calls₁, calls₂, h, h', rfl⟩)
    · exact .raised h
    · exact .matched h h'

end

section
variable {C : Course α} {D : α → Course β} {E : β → Course γ}

theorem map_id {f : α → α} (h : ∀ x, f x = x) : C.map f = C := by
  apply ext
  intro i o calls
  cases o with
  | matched y j => simp only [map_matched_iff, h, exists_eq_right]
  | failed => exact map_failed_iff
  | raised e => exact map_raised_iff

theorem map_map (f : α → β) (g : β → γ) : (C.map f).map g = C.map (g ∘ f) := by
  apply ext
  intro i o calls
  constructor
  · rintro ⟨-, ⟨o, h, rfl⟩, rfl⟩
    exact ⟨o, h, (Outcome.map_map f g o).symm⟩
  · rintro ⟨o, h, rfl⟩
    exact ⟨_, ⟨o, h, rfl⟩, Outcome.map_map f g o⟩

theorem map_andThen (f : β → γ) : map f (C.andThen D) = C.andThen fun x => (D x).map f := by
  apply ext
  intro i o calls
  constructor
  · rintro ⟨o, h, rfl⟩
    cases h with
    | matched h h' => exact .matched h ⟨_, h', rfl⟩
    | failed h => exact .failed h
    | raised h => exact .raised h
  · intro h
    cases h with
    | matched h h' =>
      obtain ⟨o', h', rfl⟩ := h'
      exact ⟨o', .matched h h', rfl⟩
    | failed h => exact ⟨_, .failed h, rfl⟩
    | raised h => exact ⟨_, .raised h, rfl⟩

theorem andThen_map (f : α → β) {D : β → Course γ} :
    andThen (C.map f) D = C.andThen fun x => D (f x) := by
  apply ext
  intro i o calls
  constructor
  · intro h
    cases h with
    | matched h h' =>
      obtain ⟨x, hx, rfl⟩ := map_matched_iff.mp h
      exact .matched hx h'
    | failed h => exact .failed (map_failed_iff.mp h)
    | raised h => exact .raised (map_raised_iff.mp h)
  · intro h
    cases h with
    | matched h h' => exact .matched (map_matched_iff.mpr ⟨_, h, rfl⟩) h'
    | failed h => exact .failed (map_failed_iff.mpr h)
    | raised h => exact .raised (map_raised_iff.mpr h)

theorem andThen_assoc : andThen (C.andThen D) E = C.andThen fun x => (D x).andThen E := by
  apply ext
  intro i o calls
  constructor
  · intro h
    cases h with
    | matched h h' =>
      cases h with
      | matched h₁ h₂ =>
        rw [List.append_assoc]
        exact .matched h₁ (.matched h₂ h')
    | failed h =>
      cases h with
      | matched h₁ h₂ => exact .matched h₁ (.failed h₂)
      | failed h₁ => exact .failed h₁
    | raised h =>
      cases h with
      | matched h₁ h₂ => exact .matched h₁ (.raised h₂)
      | raised h₁ => exact .raised h₁
  · intro h
    cases h with
    | matched h₁ h =>
      cases h with
      | matched h₂ h' =>
        rw [← List.append_assoc]
        exact .matched (.matched h₁ h₂) h'
      | failed h₂ => exact .failed (.matched h₁ h₂)
      | raised h₂ => exact .raised (.matched h₁ h₂)
    | failed h₁ => exact .failed (.failed h₁)
    | raised h₁ => exact .raised (.raised h₁)

theorem stay_andThen (x : α) : (stay x).andThen D = D x := by
  apply ext
  intro i o calls
  constructor
  · intro h
    cases h with
    | matched h h' =>
      obtain ⟨ho, rfl⟩ := h
      cases ho
      exact h'
    | failed h => cases h.1
    | raised h => cases h.1
  · intro h
    have hstay : stay x i (.matched x i) [] := ⟨rfl, rfl⟩
    exact .matched hstay h

theorem map_stay (f : α → β) (x : α) : (stay x).map f = stay (f x) := by
  apply ext
  intro i o calls
  constructor
  · rintro ⟨-, ⟨rfl, rfl⟩, rfl⟩
    exact ⟨rfl, rfl⟩
  · rintro ⟨rfl, rfl⟩
    exact ⟨_, ⟨rfl, rfl⟩, rfl⟩

theorem andThen_stay (f : α → β) : (C.andThen fun x => stay (f x)) = C.map f := by
  apply ext
  intro i o calls
  constructor
  · intro h
    cases h with
    | matched h h' =>
      obtain ⟨rfl, rfl⟩ := h'
      exact ⟨_, by rwa [List.append_nil], rfl⟩
    | failed h => exact ⟨_, h, rfl⟩
    | raised h => exact ⟨_, h, rfl⟩
  · rintro ⟨o, h, rfl⟩
    cases o with
    | matched x j =>
      rw [← List.append_nil calls]
      exact .matched h ⟨rfl, rfl⟩
    | failed => exact .failed h
    | raised e => exact .raised h

end

section
variable {C D E : Course α}

theorem orElse_assoc : orElse (C.orElse D) E = C.orElse (D.orElse E) := by
  apply ext
  intro i o calls
  constructor
  · intro h
    cases h with
    | matched h =>
      cases h with
      | matched h₁ => exact .matched h₁
      | failed h₁ h₂ => exact .failed h₁ (.matched h₂)
    | failed h h' =>
      cases h with
      | failed h₁ h₂ =>
        rw [List.append_assoc]
        exact .failed h₁ (.failed h₂ h')
    | raised h =>
      cases h with
      | failed h₁ h₂ => exact .failed h₁ (.raised h₂)
      | raised h₁ => exact .raised h₁
  · intro h
    cases h with
    | matched h₁ => exact .matched (.matched h₁)
    | failed h₁ h =>
      cases h with
      | matched h₂ => exact .matched (.failed h₁ h₂)
      | failed h₂ h' =>
        rw [← List.append_assoc]
        exact .failed (.failed h₁ h₂) h'
      | raised h₂ => exact .raised (.failed h₁ h₂)
    | raised h₁ => exact .raised (.raised h₁)

theorem fail_orElse : fail.orElse D = D := by
  apply ext
  intro i o calls
  constructor
  · intro h
    cases h with
    | matched h => cases h.1
    | failed h h' =>
      obtain ⟨-, rfl⟩ := h
      exact h'
    | raised h => cases h.1
  · intro h
    have hfail : (fail : Course α) i .failed [] := ⟨rfl, rfl⟩
    exact .failed hfail h

theorem orElse_fail : C.orElse fail = C := by
  apply ext
  intro i o calls
  constructor
  · intro h
    cases h with
    | matched h => exact h
    | failed h h' =>
      obtain ⟨rfl, rfl⟩ := h'
      rwa [List.append_nil]
    | raised h => exact h
  · intro h
    cases o with
    | matched x j => exact .matched h
    | failed =>
      rw [← List.append_nil calls]
      exact .failed h ⟨rfl, rfl⟩
    | raised e => exact .raised h

theorem map_orElse (f : α → β) : map f (C.orElse D) = (C.map f).orElse (D.map f) := by
  apply ext
  intro i o calls
  constructor
  · rintro ⟨o, h, rfl⟩
    cases h with
    | matched h => exact .matched ⟨_, h, rfl⟩
    | failed h h' => exact .failed ⟨_, h, rfl⟩ ⟨_, h', rfl⟩
    | raised h => exact .raised ⟨_, h, rfl⟩
  · intro h
    cases h with
    | matched h =>
      obtain ⟨x, hx, rfl⟩ := map_matched_iff.mp h
      exact ⟨_, .matched hx, rfl⟩
    | failed h h' =>
      obtain ⟨o, h', rfl⟩ := h'
      exact ⟨o, .failed (map_failed_iff.mp h) h', rfl⟩
    | raised h => exact ⟨_, .raised (map_raised_iff.mp h), rfl⟩

theorem map_called (f : α → β) (label : String) :
    map f (C.called label) = (C.map f).called label := by
  apply ext
  intro i o calls
  constructor
  · rintro ⟨o, ⟨calls', h, rfl⟩, rfl⟩
    exact ⟨calls', ⟨o, h, rfl⟩, rfl⟩
  · rintro ⟨calls', ⟨o, h, rfl⟩, rfl⟩
    exact ⟨o, ⟨calls', h, rfl⟩, rfl⟩

theorem repeated_map (f : α → β) : repeated (C.map f) = map (List.map f) (repeated C) := by
  have hcons (x : α) (o : Outcome (List α)) :
      (o.map (x :: ·)).map (List.map f) = (o.map (List.map f)).map (f x :: ·) := by
    cases o <;> rfl
  apply ext
  intro i o calls
  constructor
  · intro h
    induction h with
    | failed h => exact ⟨_, .failed (map_failed_iff.mp h), rfl⟩
    | stays h =>
      obtain ⟨x, hx, rfl⟩ := map_matched_iff.mp h
      exact ⟨_, .stays hx, rfl⟩
    | raised h => exact ⟨_, .raised (map_raised_iff.mp h), rfl⟩
    | again h hne _ ih =>
      obtain ⟨x, hx, rfl⟩ := map_matched_iff.mp h
      obtain ⟨o, hrest, rfl⟩ := ih
      exact ⟨_, .again hx hne hrest, hcons x o⟩
  · rintro ⟨o, h, rfl⟩
    induction h with
    | failed h => exact .failed (map_failed_iff.mpr h)
    | stays h => exact .stays (map_matched_iff.mpr ⟨_, h, rfl⟩)
    | raised h => exact .raised (map_raised_iff.mpr h)
    | @again i j x o _ _ h hne _ ih =>
      rw [hcons x o]
      exact .again (map_matched_iff.mpr ⟨x, h, rfl⟩) hne ih

end

/-! ## Shapes -/

/-- The course without the values of its matches. -/
def shape (C : Course α) : Course Unit :=
  C.map fun _ => ()

section
variable {C D : Course α}

theorem shape_matched_iff {i j : Int} {calls : List (String × Int)} :
    C.shape i (.matched () j) calls ↔ ∃ x, C i (.matched x j) calls := by
  simp only [shape, map_matched_iff, and_true]

theorem shape_failed_iff {i : Int} {calls : List (String × Int)} :
    C.shape i .failed calls ↔ C i .failed calls :=
  map_failed_iff

theorem shape_raised_iff {i : Int} {e : RunError} {calls : List (String × Int)} :
    C.shape i (.raised e) calls ↔ C i (.raised e) calls :=
  map_raised_iff

theorem shape_map (f : α → β) : (C.map f).shape = C.shape :=
  map_map f _

/-- Where no value is refused, the shape is kept. -/
theorem shape_refine {f : α → Except Refusal β} (hf : ∀ x, ∃ y, f x = .ok y) :
    (C.mapOutcome (Outcome.refine f)).shape = C.shape := by
  choose g hg using hf
  rw [funext (Outcome.refine_eq_map hg)]
  exact shape_map g

theorem shape_andThen {D : α → Course β} {E : Course Unit} (h : ∀ x, (D x).shape = E) :
    shape (C.andThen D) = C.shape.andThen fun _ => E := by
  have hnext : (fun x => (D x).map fun _ => ()) = fun _ => E := funext h
  rw [shape, map_andThen, hnext, shape, andThen_map]

theorem shape_orElse : shape (C.orElse D) = C.shape.orElse D.shape :=
  map_orElse _

theorem shape_called (label : String) : (C.called label).shape = C.shape.called label :=
  map_called _ label

theorem shape_stay (x : α) : (stay x).shape = stay () :=
  map_stay _ x

theorem shape_andThen_stay : (C.shape.andThen fun _ => stay ()) = C.shape := by
  rw [andThen_stay]
  exact shape_map _

/-- How long a repetition goes on does not depend on the values. -/
theorem shape_repeated : shape (repeated C) = shape (repeated C.shape) := by
  have h : repeated C.shape = map (List.map fun _ => ()) (repeated C) := repeated_map _
  rw [h, shape_map]

end

/-! ## Agreement -/

section
variable {C D E : Course α} {kept : Bool}

/-- The courses are the same, or, if values are not kept, at least of the same shape. -/
structure Agree (kept : Bool) (C D : Course α) : Prop where
  eq : kept = true → C = D
  shape : C.shape = D.shape

namespace Agree

theorem of_eq (h : C = D) : Agree kept C D :=
  ⟨fun _ => h, by rw [h]⟩

theorem of_shape (h : C.shape = D.shape) : Agree false C D :=
  ⟨nofun, h⟩

theorem symm (h : Agree kept C D) : Agree kept D C :=
  ⟨fun hkept => (h.eq hkept).symm, h.shape.symm⟩

theorem trans (h : Agree kept C D) (h' : Agree kept D E) : Agree kept C E :=
  ⟨fun hkept => (h.eq hkept).trans (h'.eq hkept), h.shape.trans h'.shape⟩

variable {i : Int} {calls : List (String × Int)}

theorem matched_iff {j : Int} (h : Agree kept C D) :
    (∃ x, C i (.matched x j) calls) ↔ ∃ x, D i (.matched x j) calls := by
  rw [← shape_matched_iff, h.shape, shape_matched_iff]

theorem failed_iff (h : Agree kept C D) : C i .failed calls ↔ D i .failed calls := by
  rw [← shape_failed_iff (C := C), h.shape, shape_failed_iff]

theorem raised_iff {e : RunError} (h : Agree kept C D) :
    C i (.raised e) calls ↔ D i (.raised e) calls := by
  rw [← shape_raised_iff (C := C), h.shape, shape_raised_iff]

/-- What can be told of two courses that agree. -/
theorem observed (h : Agree kept C D) (i : Int) :
    (kept = true → ∀ o calls, C i o calls ↔ D i o calls) ∧
    ∀ calls,
      (∀ j, (∃ x, C i (.matched x j) calls) ↔ ∃ x, D i (.matched x j) calls) ∧
      (C i .failed calls ↔ D i .failed calls) ∧
      ∀ e, C i (.raised e) calls ↔ D i (.raised e) calls :=
  ⟨fun hkept o calls => by rw [h.eq hkept],
    fun calls => ⟨fun j => h.matched_iff, h.failed_iff, fun e => h.raised_iff⟩⟩

/-- Where the one course leads, the other one leads to an outcome that agrees. -/
theorem exists_agree {o : Outcome α} (h : Agree kept C D) (hC : C i o calls) :
    ∃ o', D i o' calls ∧ o.Agree kept o' := by
  cases kept with
  | true =>
    rw [h.eq rfl] at hC
    exact ⟨o, hC, .refl o⟩
  | false =>
    have hshape : C.shape i (o.map fun _ => ()) calls := ⟨o, hC, rfl⟩
    rw [h.shape] at hshape
    obtain ⟨o', hD, ho⟩ := hshape
    exact ⟨o', hD, .of_shape ho.symm⟩

theorem of_exists_agree
    (h : ∀ i o calls, C i o calls → ∃ o', D i o' calls ∧ o.Agree kept o')
    (h' : ∀ i o calls, D i o calls → ∃ o', C i o' calls ∧ o.Agree kept o') : Agree kept C D := by
  constructor
  · rintro rfl
    apply ext
    intro i o calls
    constructor
    · intro hC
      obtain ⟨o', hD, ho⟩ := h i o calls hC
      rwa [ho.eq]
    · intro hD
      obtain ⟨o', hC, ho⟩ := h' i o calls hD
      rwa [ho.eq]
  · apply ext
    intro i o calls
    constructor
    · rintro ⟨o, hC, rfl⟩
      obtain ⟨o', hD, ho⟩ := h i o calls hC
      exact ⟨o', hD, ho.shape.symm⟩
    · rintro ⟨o, hD, rfl⟩
      obtain ⟨o', hC, ho⟩ := h' i o calls hD
      exact ⟨o', hC, ho.shape.symm⟩

end Agree

end

end Course

end Conditions
