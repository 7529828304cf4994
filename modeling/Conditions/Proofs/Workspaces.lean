import Conditions.Proofs.Describing
import Conditions.Workspace.Basic

/-!
# Histories of workspaces

What the steps of a history leave behind. To put a parser together takes new places, and changes
none of those that there are. A parser is given a name by the steps that bind it, and a forward is
supplied with a parser by the first step that is not refused, and by no other.
-/

namespace Conditions

/-- The parser that has been supplied for a place. -/
def Store.body? (store : Store) (place : Nat) : Option Parser :=
  store[place]?.bind Forward.body?

/-- The store has been given new places, for which nothing has been supplied. -/
def Store.Grown (store store' : Store) : Prop :=
  ∃ fresh : List Forward, store' = store ++ fresh ∧ ∀ f ∈ fresh, f.body? = none

namespace Store

variable {store store' store'' : Store}

theorem Grown.refl (store : Store) : store.Grown store :=
  ⟨[], (List.append_nil store).symm, List.forall_mem_nil _⟩

theorem Grown.trans (h : store.Grown store') (h' : store'.Grown store'') : store.Grown store'' := by
  obtain ⟨fresh, rfl, hfresh⟩ := h
  obtain ⟨fresh', rfl, hfresh'⟩ := h'
  exact ⟨fresh ++ fresh', List.append_assoc .., List.forall_mem_append.mpr ⟨hfresh, hfresh'⟩⟩

/-- New places are without a parser. -/
theorem Grown.body? (h : store.Grown store') (place : Nat) :
    store'.body? place = store.body? place := by
  obtain ⟨fresh, rfl, hfresh⟩ := h
  rw [Store.body?, Store.body?, List.getElem?_append]
  split
  · rfl
  · next hlength =>
    rw [List.getElem?_eq_none (Nat.le_of_not_lt hlength), Option.bind_none]
    cases hf : fresh[place - store.length]? with
    | none => rfl
    | some f => exact hfresh f (List.mem_of_getElem? hf)

theorem body?_set_self {place : Nat} (h : place < store.length) (name? : Option String)
    (p : Parser) : Store.body? (store.set place ⟨name?, some p⟩) place = some p := by
  rw [Store.body?, List.getElem?_set_self h, Option.bind_some]

theorem body?_set_ne {place place' : Nat} (h : place ≠ place') (f : Forward) :
    Store.body? (store.set place' f) place = store.body? place := by
  rw [Store.body?, List.getElem?_set_ne (Ne.symm h), Store.body?]

theorem lt_length_of_body? {place : Nat} {p : Parser} (h : store.body? place = some p) :
    place < store.length := by
  rw [Store.body?, Option.bind_eq_some_iff] at h
  obtain ⟨f, hf, -⟩ := h
  exact (List.getElem?_eq_some_iff.mp hf).1

end Store

/-! ### Building -/

section
variable {α β : Type}

theorem Building.run_bind (m : Building α) (f : α → Building β) (store : Store) :
    (m >>= f).run store =
      match m.run store with
      | (.ok x, store') => (f x).run store'
      | (.error e, store') => (.error e, store') := by
  change ExceptT.bindCont f (m.run store).1 (m.run store).2 = _
  rcases m.run store with ⟨x | e, store'⟩ <;> rfl

theorem Building.bind_eq_ok {m : Building α} {f : α → Building β} {store grown : Store} {y : β}
    (h : (m >>= f).run store = (.ok y, grown)) :
    ∃ x middle, m.run store = (.ok x, middle) ∧ (f x).run middle = (.ok y, grown) := by
  rw [Building.run_bind] at h
  rcases hrun : m.run store with ⟨x | e, middle⟩
  · rw [hrun] at h
    cases h
  · rw [hrun] at h
    exact ⟨_, middle, rfl, h⟩

/-- The computation leaves the places alone that there are, also if it is refused. -/
def Grows (m : Building α) : Prop :=
  ∀ store : Store, store.Grown (m.run store).2

theorem Grows.pure (x : α) : Grows (Pure.pure x) :=
  fun store => .refl store

theorem Grows.lift (result : Except WorkspaceError α) : Grows (liftM result) :=
  fun store => .refl store

theorem Grows.bind {m : Building α} {f : α → Building β} (hm : Grows m) (hf : ∀ x, Grows (f x)) :
    Grows (m >>= f) := by
  intro store
  have hfirst := hm store
  rw [Building.run_bind]
  cases hrun : m.run store with
  | mk result store' =>
    rw [hrun] at hfirst
    cases result with
    | ok x => exact hfirst.trans (hf x store')
    | error e => exact hfirst

theorem grows_takePlace (name? : Option String) : Grows (takePlace name?) := by
  intro store
  exact ⟨[⟨name?, none⟩], rfl, by simp⟩

end

namespace Description

mutual

/-- To put a parser together takes new places, and changes none. -/
theorem build_grows (bindings : List (String × Built)) :
    ∀ d : Description, Grows (d.build bindings)
  | empty _ | elem _ | production _ | value _ | jump _ _ => .pure _
  | pair first second _ =>
    .bind (build_grows bindings first) fun _ => .bind (build_grows bindings second) fun _ =>
      .bind (.lift _) fun _ => .bind (.lift _) fun _ => .pure _
  | sequence parts | choice parts | parenthesized parts =>
    .bind (buildAll_grows bindings parts) fun _ => .bind (.lift _) fun _ => .pure _
  | many inner | transform inner _ | probe _ inner | named inner _ =>
    .bind (build_grows bindings inner) fun _ => .bind (.lift _) fun _ => .pure _
  | forward name? => .bind (grows_takePlace name?) fun _ => .pure _
  | reference name => by
    rw [build]
    cases bindings.lookup name with
    | some b => exact .pure _
    | none => exact fun store => .refl store
  | faulty e => fun store => .refl store

theorem buildAll_grows (bindings : List (String × Built)) :
    ∀ ds : List Description, Grows (buildAll bindings ds)
  | [] => .pure _
  | d :: ds =>
    .bind (build_grows bindings d) fun _ => .bind (buildAll_grows bindings ds) fun _ => .pure _

end

end Description

namespace Workspace

variable {w : Workspace} {name : String} {d : Description} {place : Nat} {found : Forward}
  {x : Operand} {b : Built} {p : Parser} {step : Step}

theorem build_grown (w : Workspace) (d : Description) : w.store.Grown (w.build d).1.store :=
  Description.build_grows w.bindings d w.store

theorem build_bindings (w : Workspace) (d : Description) : (w.build d).1.bindings = w.bindings :=
  rfl

theorem builtOf_eq_ok_iff : (w.builtOf d).2 = .ok b ↔ (w.build d).2 = .ok (.parser b) := by
  change (w.build d).2.bind Operand.toBuilt = .ok b ↔ _
  rcases (w.build d).2 with e | c | tree <;> simp [Except.bind, Operand.toBuilt]

/-! ### Steps -/

/-- A value where a parser should be is shown in the error, if all its numbers can be written. -/
theorem ofValue_eq_notAParser {tree : Tree} (h : ∀ n ∈ tree.wholeNumbers, WithinDigitLimit n) :
    ∃ shown, tree.describe = .ok shown ∧ WorkspaceError.ofValue tree = .notAParser shown := by
  obtain ⟨shown, hshown⟩ := (Tree.exists_describe_iff tree).mpr h
  exact ⟨shown, hshown, by rw [WorkspaceError.ofValue, hshown]⟩

theorem ofValue_eq_unwritable {tree : Tree}
    (h : ¬ ∀ n ∈ tree.wholeNumbers, WithinDigitLimit n) :
    ∃ e, WorkspaceError.ofValue tree = .unwritable e := by
  rw [← Tree.exists_describe_iff] at h
  cases hshown : tree.describe with
  | ok shown => exact absurd ⟨shown, hshown⟩ h
  | error e => exact ⟨e, by rw [WorkspaceError.ofValue, hshown]⟩

/-- A copy of a parser is no forward, whatever it is a copy of, and under whatever name. -/
theorem build_named_eq_other {name? : Option String}
    (h : (w.build (.named d name?)).2 = .ok (.parser b)) : ∃ p, b = .other p := by
  have hrun : (Description.build w.bindings (.named d name?)).run w.store =
      (.ok (.parser b), (w.build (.named d name?)).1.store) := Prod.ext h rfl
  rw [Description.build] at hrun
  obtain ⟨x, middle, -, hrun⟩ := Building.bind_eq_ok hrun
  obtain ⟨c, middle', -, hrun⟩ := Building.bind_eq_ok hrun
  cases hrun
  cases name? with
  | none => exact ⟨_, rfl⟩
  | some name => exact ⟨_, rfl⟩

/-- What is found for a name is the place of the forward with this name. -/
theorem forwardAt_eq_ok_iff :
    w.forwardAt name = .ok (place, found) ↔
      ∃ name?, w.bindings.lookup name = some (.forward place name?) ∧
        w.store[place]? = some found := by
  unfold forwardAt
  constructor
  · intro h
    split at h
    · next b hlookup =>
      split at h
      · next place' name? =>
        split at h
        · next found' hfound =>
          cases h
          exact ⟨name?, hlookup, hfound⟩
        · cases h
      · cases h
    · cases h
  · rintro ⟨name?, hlookup, hfound⟩
    simp only [hlookup, hfound]
    rfl

/-- What is no forward cannot be supplied. -/
theorem supply_of_other (h : w.bindings.lookup name = some (.other p)) :
    w.supply name x = .error (.notAForward name) := by
  simp [supply, forwardAt, h, Bind.bind, Except.bind, throw, throwThe, MonadExceptOf.throw]

/-- A forward is supplied once. -/
theorem supply_of_defined (h : w.forwardAt name = .ok (place, found))
    (hbody : found.body?.isSome) :
    w.supply name x = .error (.alreadyDefined (found.name?.getD "")) := by
  simp [supply, h, hbody, Bind.bind, Except.bind, throw, throwThe, MonadExceptOf.throw]

/-- A forward is not supplied with a value. -/
theorem supply_value (h : w.forwardAt name = .ok (place, found)) (hbody : found.body? = none)
    (tree : Tree) : w.supply name (.value tree) = .error (.ofValue tree) := by
  simp [supply, h, hbody, Bind.bind, Except.bind, Operand.toParser, Operand.toBuilt, Except.map]

theorem supply_undefined (h : w.forwardAt name = .ok (place, found)) (hbody : found.body? = none)
    (b : Built) : w.supply name (.parser b) =
      .ok { w with store := w.store.set place { found with body? := some b.parser } } := by
  simp [supply, h, hbody, Bind.bind, Except.bind, Operand.toParser, Operand.toBuilt, Except.map,
    Pure.pure, Except.pure]

theorem supply_eq_ok {w' : Workspace} (h : w.supply name x = .ok w') :
    ∃ place found b, w.forwardAt name = .ok (place, found) ∧ found.body? = none ∧
      x = .parser b := by
  cases hfound : w.forwardAt name with
  | error e => simp [supply, hfound, Bind.bind, Except.bind] at h
  | ok at_ =>
    obtain ⟨place, found⟩ := at_
    cases hbody : found.body? with
    | some p => simp [supply_of_defined hfound (by simp [hbody])] at h
    | none =>
      cases x with
      | value tree => simp [supply_value hfound hbody] at h
      | parser b => exact ⟨place, found, b, rfl, hbody, rfl⟩

/-- The description that a step reads. -/
def Step.description : Step → Description
  | bind _ d | define _ d | run d _ _ => d

/-- The step that is answered has given a parser a name, or supplied a forward. -/
def Answer.isDeclaration : Answer → Bool
  | bound _ | defined => true
  | _ => false

/-- The step supplies the forward at the place with the parser. -/
def Supplies (w : Workspace) (step : Step) (place : Nat) (p : Parser) : Prop :=
  ∃ name d b found, step = .define name d ∧ (w.build d).2 = .ok (.parser b) ∧ b.parser = p ∧
    (w.build d).1.forwardAt name = .ok (place, found) ∧ (w.perform step).2 = .defined

theorem perform_define_error (hbuild : (w.build d).2 = .ok x) {e : WorkspaceError}
    (hsupply : (w.build d).1.supply name x = .error e) :
    w.perform (.define name d) = ((w.build d).1, .refused e) := by
  rcases hresult : w.build d with ⟨w', result⟩
  rw [hresult] at hbuild hsupply
  cases hbuild
  simp only [perform, hresult, hsupply]

theorem perform_define_ok (hbuild : (w.build d).2 = .ok x) {w' : Workspace}
    (hsupply : (w.build d).1.supply name x = .ok w') :
    w.perform (.define name d) = (w', .defined) := by
  rcases hresult : w.build d with ⟨w'', result⟩
  rw [hresult] at hbuild hsupply
  cases hbuild
  simp only [perform, hresult, hsupply]

/-- A step that supplies a forward does so if nothing has been supplied for it, and only then. -/
theorem perform_define_undefined (hbuild : (w.build d).2 = .ok (.parser b))
    (hfound : (w.build d).1.forwardAt name = .ok (place, found)) (hbody : found.body? = none) :
    w.perform (.define name d) =
      ({ (w.build d).1 with
          store := (w.build d).1.store.set place { found with body? := some b.parser } },
        .defined) := by
  rw [perform_define_ok hbuild (supply_undefined hfound hbody b)]

theorem perform_bind_error {e : WorkspaceError} (h : (w.builtOf d).2 = .error e) :
    w.perform (.bind name d) = ((w.build d).1, .refused e) := by
  have hpair : w.builtOf d = ((w.build d).1, .error e) := Prod.ext rfl h
  rw [perform, hpair]

theorem perform_bind_ok (h : (w.builtOf d).2 = .ok b) :
    w.perform (.bind name d) =
      ({ (w.build d).1 with bindings := (name, b) :: w.bindings }, .bound b) := by
  have hpair : w.builtOf d = ((w.build d).1, .ok b) := Prod.ext rfl h
  rw [perform, hpair]
  rfl

/-- To run a parser takes the new places that its description asks for, and does nothing else. -/
theorem perform_run (w : Workspace) (d : Description) (tokens : Array Token) (i : Int) :
    (w.perform (.run d tokens i)).1 = (w.build d).1 ∧
      ¬ (w.perform (.run d tokens i)).2.isDeclaration := by
  cases hb : (w.builtOf d).2 with
  | error e =>
    have hpair : w.builtOf d = ((w.build d).1, .error e) := Prod.ext rfl hb
    rw [perform, hpair]
    exact ⟨rfl, Bool.false_ne_true⟩
  | ok b =>
    have hpair : w.builtOf d = ((w.build d).1, .ok b) := Prod.ext rfl hb
    simp only [perform, hpair]
    cases b.parser.runAt (w.build d).1.store tokens i with
    | none => exact ⟨rfl, Bool.false_ne_true⟩
    | some a => exact ⟨rfl, Bool.false_ne_true⟩

/-- What a step does: it gives a parser a name, it supplies a forward for which nothing has been
supplied, or it only takes new places. -/
theorem perform_cases (w : Workspace) (step : Step) :
    (∃ name d b, step = .bind name d ∧ (w.build d).2 = .ok (.parser b) ∧
      w.perform step =
        ({ (w.build d).1 with bindings := (name, b) :: w.bindings }, .bound b)) ∨
    (∃ name d b place found, step = .define name d ∧ (w.build d).2 = .ok (.parser b) ∧
      (w.build d).1.forwardAt name = .ok (place, found) ∧ found.body? = none) ∨
    (w.perform step).1 = (w.build step.description).1 ∧ ¬ (w.perform step).2.isDeclaration := by
  cases step with
  | bind name d =>
    cases hb : (w.builtOf d).2 with
    | error e =>
      rw [perform_bind_error hb]
      exact .inr (.inr ⟨rfl, Bool.false_ne_true⟩)
    | ok b =>
      exact .inl ⟨name, d, b, rfl, builtOf_eq_ok_iff.mp hb, perform_bind_ok hb⟩
  | define name d =>
    refine .inr ?_
    cases hx : (w.build d).2 with
    | error e =>
      have hpair : w.build d = ((w.build d).1, .error e) := Prod.ext rfl hx
      refine .inr ?_
      rw [perform, hpair]
      exact ⟨rfl, Bool.false_ne_true⟩
    | ok x =>
      cases hsupply : (w.build d).1.supply name x with
      | error e =>
        refine .inr ?_
        rw [perform_define_error hx hsupply]
        exact ⟨rfl, Bool.false_ne_true⟩
      | ok w' =>
        obtain ⟨place, found, b, hfound, hbody, rfl⟩ := supply_eq_ok hsupply
        exact .inl ⟨name, d, b, place, found, rfl, hx, hfound, hbody⟩
  | run d tokens i => exact .inr (.inr (perform_run w d tokens i))

/-- A step changes what is supplied for a place by supplying it, if nothing was supplied before, and
in no other way. -/
theorem body?_perform_iff (w : Workspace) (step : Step) (place : Nat) (p : Parser) :
    ((w.perform step).1.store.body? place = some p ↔
      w.store.body? place = some p ∨ w.Supplies step place p) ∧
    (w.Supplies step place p → w.store.body? place = none) := by
  rcases perform_cases w step with ⟨name, d, b, rfl, hbuild, hperform⟩ |
    ⟨name, d, b, place', found, rfl, hbuild, hfound, hbody⟩ | ⟨hstore, hanswer⟩
  · have hnot : ¬ w.Supplies (.bind name d) place p := by
      rintro ⟨_, _, _, _, h, -⟩
      cases h
    rw [hperform]
    exact ⟨by simp [hnot, (build_grown w d).body? place], fun h => absurd h hnot⟩
  · have hperform := perform_define_undefined hbuild hfound hbody
    have hsupplies : w.Supplies (.define name d) place p ↔ place = place' ∧ p = b.parser := by
      constructor
      · rintro ⟨name', d', b', found', h, hbuild', rfl, hfound', -⟩
        cases h
        rw [hbuild] at hbuild'
        rw [hfound] at hfound'
        cases hbuild'
        cases hfound'
        exact ⟨rfl, rfl⟩
      · rintro ⟨rfl, rfl⟩
        exact ⟨name, d, b, found, rfl, hbuild, rfl, hfound, by rw [hperform]⟩
    obtain ⟨-, -, hplace⟩ := forwardAt_eq_ok_iff.mp hfound
    have hundefined : (w.build d).1.store.body? place' = none := by
      rw [Store.body?, hplace, Option.bind_some, hbody]
    rw [← (build_grown w d).body? place, hsupplies, hperform]
    by_cases hsame : place = place'
    · subst hsame
      simp [hundefined, Store.body?_set_self (List.getElem?_eq_some_iff.mp hplace).1, eq_comm]
    · simp [hsame, Store.body?_set_ne hsame]
  · have hnot : ¬ w.Supplies step place p := by
      rintro ⟨_, _, _, _, -, -, -, -, h⟩
      exact hanswer (by rw [h]; rfl)
    rw [hstore, (build_grown w step.description).body? place]
    exact ⟨by simp [hnot], fun h => absurd h hnot⟩

/-! ### Histories -/

/-- The workspace after steps. -/
def after (w : Workspace) : List Step → Workspace
  | [] => w
  | step :: steps => (w.perform step).1.after steps

theorem after_append (w : Workspace) (steps later : List Step) :
    w.after (steps ++ later) = (w.after steps).after later := by
  induction steps generalizing w with
  | nil => rfl
  | cons step steps ih => exact ih _

/-- What has been supplied stays. -/
theorem body?_after (h : w.store.body? place = some p) (steps : List Step) :
    (w.after steps).store.body? place = some p := by
  induction steps generalizing w with
  | nil => exact h
  | cons step steps ih => exact ih ((body?_perform_iff w step place p).1.mpr (.inl h))

/-- What is supplied for a place after steps has been supplied before them, or by one of them. -/
theorem body?_after_iff (w : Workspace) (steps : List Step) (place : Nat) (p : Parser) :
    (w.after steps).store.body? place = some p ↔
      w.store.body? place = some p ∨
        ∃ before step later, steps = before ++ step :: later ∧
          (w.after before).Supplies step place p := by
  constructor
  · intro h
    induction steps generalizing w with
    | nil => exact .inl h
    | cons step steps ih =>
      rcases ih _ h with hfirst | ⟨before, step', later, rfl, hsupplies⟩
      · refine ((body?_perform_iff w step place p).1.mp hfirst).imp id fun hsupplies => ?_
        exact ⟨[], step, steps, rfl, hsupplies⟩
      · exact .inr ⟨step :: before, step', later, rfl, hsupplies⟩
  · rintro (h | ⟨before, step, later, rfl, hsupplies⟩)
    · exact body?_after h steps
    · rw [after_append]
      exact body?_after ((body?_perform_iff _ step place p).1.mpr (.inr hsupplies)) later

/-- The steps of a history that give a parser a name or supply a forward, in order. -/
def declarations (w : Workspace) : List Step → List Step
  | [] => []
  | step :: steps =>
    (if (w.perform step).2.isDeclaration then [step] else []) ++
      (w.perform step).1.declarations steps

/-- The name that a step is to give to a parser. -/
def Step.boundName? : Step → Option String
  | bind name _ => some name
  | define _ _ | run _ _ _ => none

theorem declarations_append (w : Workspace) (steps later : List Step) :
    w.declarations (steps ++ later) =
      w.declarations steps ++ (w.after steps).declarations later := by
  induction steps generalizing w with
  | nil => rfl
  | cons step steps ih => rw [List.cons_append, declarations, ih, declarations, List.append_assoc,
      after]

theorem exists_of_mem_declarations {steps : List Step} (h : step ∈ w.declarations steps) :
    ∃ before later, steps = before ++ step :: later ∧
      ((w.after before).perform step).2.isDeclaration := by
  induction steps generalizing w with
  | nil => cases h
  | cons first steps ih =>
    rcases List.mem_append.mp h with hown | hrest
    · split at hown
      · next hfirst =>
        rw [List.mem_singleton] at hown
        subst hown
        exact ⟨[], steps, rfl, hfirst⟩
      · cases hown
    · obtain ⟨before, later, rfl, hstep⟩ := ih hrest
      exact ⟨first :: before, later, rfl, hstep⟩

/-- A name keeps its parser through steps that do not give it to another one. -/
theorem lookup_after {steps : List Step}
    (h : name ∉ (w.declarations steps).filterMap Step.boundName?) :
    (w.after steps).bindings.lookup name = w.bindings.lookup name := by
  induction steps generalizing w with
  | nil => rfl
  | cons step steps ih =>
    rw [declarations, List.filterMap_append, List.mem_append, not_or] at h
    rw [after, ih h.2]
    rcases perform_cases w step with ⟨name', d, c, rfl, -, hperform⟩ |
      ⟨name', d, c, place, found, rfl, hbuild, hfound, hbody⟩ | ⟨hstore, -⟩
    · have hne : ¬ name = name' := by
        simpa [hperform, Answer.isDeclaration, Step.boundName?] using h.1
      rw [hperform, List.lookup_cons, beq_false_of_ne hne]
    · rw [perform_define_undefined hbuild hfound hbody]
      rfl
    · rw [hstore, build_bindings]

/-- Where no name is given twice, a name keeps its parser. -/
theorem lookup_after_append {steps later : List Step}
    (hnames : ((start.declarations (steps ++ later)).filterMap Step.boundName?).Nodup)
    (h : (start.after steps).bindings.lookup name = some b) :
    (start.after (steps ++ later)).bindings.lookup name = some b := by
  have hbound : name ∈ (start.declarations steps).filterMap Step.boundName? := by
    by_cases hbound : name ∈ (start.declarations steps).filterMap Step.boundName?
    · exact hbound
    · rw [lookup_after hbound] at h
      cases h
  rw [declarations_append, List.filterMap_append, List.nodup_append] at hnames
  rw [after_append, lookup_after fun hlater => hnames.2.2 name hbound name hlater rfl, h]

/-- A step that has given a name to a parser: it was put together from parsers that have the same
names in the end, and the name is still its own. -/
theorem exists_of_bind_mem {steps : List Step}
    (hnames : ((start.declarations steps).filterMap Step.boundName?).Nodup)
    (h : .bind name d ∈ start.declarations steps) :
    ∃ (w : Workspace) (b : Built), (∀ name' c, w.bindings.lookup name' = some c →
        (start.after steps).bindings.lookup name' = some c) ∧
      (w.build d).2 = .ok (.parser b) ∧ (start.after steps).bindings.lookup name = some b := by
  obtain ⟨before, later, rfl, hcarried⟩ := exists_of_mem_declarations h
  rcases perform_cases (start.after before) (.bind name d) with
    ⟨_, _, b, ⟨⟩, hbuild, hperform⟩ | ⟨_, _, _, _, _, ⟨⟩, -⟩ | ⟨-, hrefused⟩
  · refine ⟨start.after before, b, fun _ _ => lookup_after_append hnames, hbuild, ?_⟩
    rw [List.append_cons] at hnames ⊢
    refine lookup_after_append hnames ?_
    rw [after_append, after, after, hperform, List.lookup_cons_self]
  · exact absurd hcarried hrefused

/-- A step that has supplied a forward: the parser was put together from parsers that have the same
names in the end, and so has the forward, which still stands for it. -/
theorem exists_of_define_mem {steps : List Step}
    (hnames : ((start.declarations steps).filterMap Step.boundName?).Nodup)
    (h : .define name d ∈ start.declarations steps) :
    ∃ (w : Workspace) (b : Built) (place : Nat) (name? : Option String),
      (∀ name' c, w.bindings.lookup name' = some c →
        (start.after steps).bindings.lookup name' = some c) ∧
      (w.build d).2 = .ok (.parser b) ∧
      (start.after steps).bindings.lookup name = some (.forward place name?) ∧
      (start.after steps).store.body? place = some b.parser := by
  obtain ⟨before, later, rfl, hcarried⟩ := exists_of_mem_declarations h
  rcases perform_cases (start.after before) (.define name d) with
    ⟨_, _, _, ⟨⟩, -⟩ | ⟨_, _, b, place, found, ⟨⟩, hbuild, hfound, hbody⟩ | ⟨-, hrefused⟩
  · obtain ⟨name?, hname, -⟩ := forwardAt_eq_ok_iff.mp hfound
    have hsupplies : (start.after before).Supplies (.define name d) place b.parser :=
      ⟨name, d, b, found, rfl, hbuild, rfl, hfound,
        by rw [perform_define_undefined hbuild hfound hbody]⟩
    refine ⟨start.after before, b, place, name?, fun _ _ => lookup_after_append hnames, hbuild,
      lookup_after_append hnames hname, ?_⟩
    exact (body?_after_iff start _ place b.parser).mpr (.inr ⟨before, _, later, rfl, hsupplies⟩)
  · exact absurd hcarried hrefused

end Workspace

end Conditions
