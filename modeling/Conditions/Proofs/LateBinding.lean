import Conditions.Proofs.Acceptance
import Conditions.Proofs.Similarity
import Conditions.Proofs.Workspaces

/-!
# Late binding

A parser sees what is supplied for its forwards whenever that happens, so the order in which parsers
are put together and forwards are supplied is of no influence. Two histories that give the same
names and supply the same forwards, each in its own order and with whatever else is tried in
between, may take different places for the same forward. Their parsers are similar where the places
are related that were taken on the same occasion.
-/

namespace Conditions

/-- The relation, in which each of `n` places from `l` on is also related with the one as far behind
`l'`. -/
def Extended (R : Nat → Nat → Prop) (l l' n : Nat) (a b : Nat) : Prop :=
  R a b ∨ ∃ k < n, a = l + k ∧ b = l' + k

section
variable {R : Nat → Nat → Prop} {l l' m n a b : Nat}

@[simp]
theorem extended_zero : Extended R l l' 0 = R := by
  funext a b
  simp [Extended]

theorem extended_extended :
    Extended (Extended R l l' m) (l + m) (l' + m) n = Extended R l l' (m + n) := by
  funext a b
  simp only [Extended, or_assoc, eq_iff_iff]
  refine or_congr Iff.rfl ⟨?_, ?_⟩
  · rintro (⟨k, hk, rfl, rfl⟩ | ⟨k, hk, rfl, rfl⟩)
    · exact ⟨k, by omega, rfl, rfl⟩
    · exact ⟨m + k, by omega, by omega, by omega⟩
  · rintro ⟨k, hk, rfl, rfl⟩
    by_cases hkm : k < m
    · exact .inl ⟨k, hkm, rfl, rfl⟩
    · exact .inr ⟨k - m, by omega, by omega, by omega⟩

end

namespace Parser

variable {R : Nat → Nat → Prop}

theorem Similar.parenthesized {ps ps' : List Parser} (h : List.Forall₂ (Similar R) ps ps') :
    Similar R (.parenthesized ps) (.parenthesized ps') := by
  have htoken (kind : TokenKind) : Similar R (.token kind) (.token kind) :=
    .namedLeft (.namedRight (.elem kind))
  exact .transform (.sequence (.cons (htoken _) (List.rel_append h (.cons (htoken _) .nil))))

theorem Similar.refl_of {p : Parser} (h : ∀ place ∈ p.places, R place place) : Similar R p p := by
  refine (Similar.refl p).mono ?_
  rintro a ha _ _ rfl
  exact h a ha

/-- A name that is left out makes no difference. -/
theorem Similar.unnamed {p p' : Parser} (h : Similar R p p') : Similar R p.unnamed p'.unnamed := by
  have hown (q : Parser) : Similar Eq q.unnamed q := by
    cases q with
    | named name inner => exact .namedRight (.refl inner)
    | _ => exact .refl _
  have hright : Similar Eq p' p'.unnamed := (hown p').symm fun _ _ _ _ => Eq.symm
  refine (((hown p).trans h).trans hright).mono ?_
  rintro a _ _ _ ⟨b, ⟨_, rfl, hab⟩, rfl⟩
  exact hab

end Parser

/-- Forwards for related places, or other parsers that are similar. -/
inductive Built.Similar (R : Nat → Nat → Prop) : Built → Built → Prop where
  | forward {place place' : Nat} (name? : Option String) : R place place' →
      Built.Similar R (.forward place name?) (.forward place' name?)
  | other {p p' : Parser} : p.Similar R p' → Built.Similar R (.other p) (.other p')

namespace Built.Similar

variable {R S : Nat → Nat → Prop} {b b' b₀ : Built}

theorem mono (h : b.Similar R b') (hS : ∀ a c, R a c → S a c) : b.Similar S b' := by
  cases h with
  | forward name? hplace => exact .forward name? (hS _ _ hplace)
  | other hp => exact .other (hp.mono fun a _ c _ => hS a c)

theorem parser (h : b.Similar R b') : b.parser.Similar R b'.parser := by
  cases h with
  | forward name? hplace =>
    cases name? with
    | none => exact .forward hplace
    | some name => exact .namedLeft (.namedRight (.forward hplace))
  | other hp => exact hp

/-- Copies under the same name are similar. -/
theorem copy (h : b.Similar R b') (name? : Option String) :
    (b.copy name?).Similar R (b'.copy name?) := by
  cases name? with
  | none => exact .other h.parser.unnamed
  | some name => exact .other (.namedLeft (.namedRight h.parser.unnamed))

/-- What is similar to the same is similar. -/
theorem via (h : b.Similar R b₀) (h' : b'.Similar S b₀) :
    b.Similar (fun a c => ∃ a₀, R a a₀ ∧ S c a₀) b' := by
  cases h with
  | forward name? hplace =>
    cases h' with
    | forward _ hplace' => exact .forward name? ⟨_, hplace, hplace'⟩
  | other hp =>
    cases h' with
    | other hp' => exact .other (hp.trans (hp'.symm fun _ _ _ _ => id))

end Built.Similar

/-- Operands that are similar parsers, or the same value. -/
inductive Operand.Similar (R : Nat → Nat → Prop) : Operand → Operand → Prop where
  | parser {b b' : Built} : b.Similar R b' → Operand.Similar R (.parser b) (.parser b')
  | value (tree : Tree) : Operand.Similar R (.value tree) (.value tree)

theorem Operand.Similar.mono {R S : Nat → Nat → Prop} {x x' : Operand} (h : x.Similar R x')
    (hS : ∀ a b, R a b → S a b) : x.Similar S x' := by
  cases h with
  | parser hb => exact .parser (hb.mono hS)
  | value tree => exact .value tree

/-! ### Building -/

section
variable {α α' β β' : Type} {R : Nat → Nat → Prop}

/-- Two computations, where neither is refused, take as many places with the same names, and their
results are related when the places are that they take at the same time. -/
def Alike (R : Nat → Nat → Prop) (m : Building α) (m' : Building α')
    (Q : (Nat → Nat → Prop) → α → α' → Prop) : Prop :=
  ∀ (store store' : Store) x x' (grown grown' : Store),
    m.run store = (.ok x, grown) → m'.run store' = (.ok x', grown') →
    ∃ fresh, grown = store ++ fresh ∧ grown' = store' ++ fresh ∧
      Q (Extended R store.length store'.length fresh.length) x x'

variable {Q : (Nat → Nat → Prop) → α → α' → Prop} {Q' : (Nat → Nat → Prop) → β → β' → Prop}

theorem Alike.pure {x : α} {x' : α'} (h : Q R x x') : Alike R (Pure.pure x) (Pure.pure x') Q := by
  rintro store store' _ _ _ _ ⟨⟩ ⟨⟩
  exact ⟨[], (List.append_nil store).symm, (List.append_nil store').symm, by simpa using h⟩

theorem Alike.lift {result : Except WorkspaceError α} {result' : Except WorkspaceError α'}
    (h : ∀ x x', result = .ok x → result' = .ok x' → Q R x x') :
    Alike R (liftM result) (liftM result') Q := by
  intro store store' x x' grown grown' hrun hrun'
  obtain ⟨hx, rfl⟩ := Prod.mk.inj hrun
  obtain ⟨hx', rfl⟩ := Prod.mk.inj hrun'
  exact ⟨[], (List.append_nil store).symm, (List.append_nil store').symm,
    by simpa using h x x' hx hx'⟩

theorem Alike.bind {m : Building α} {m' : Building α'} {f : α → Building β} {f' : α' → Building β'}
    (hm : Alike R m m' Q)
    (hf : ∀ S x x', (∀ a b, R a b → S a b) → Q S x x' → Alike S (f x) (f' x') Q') :
    Alike R (m >>= f) (m' >>= f') Q' := by
  intro store store' y y' grown grown' hrun hrun'
  obtain ⟨x, middle, hfirst, hrest⟩ := Building.bind_eq_ok hrun
  obtain ⟨x', middle', hfirst', hrest'⟩ := Building.bind_eq_ok hrun'
  obtain ⟨fresh, rfl, rfl, hx⟩ := hm store store' x x' middle middle' hfirst hfirst'
  obtain ⟨fresh', rfl, rfl, hy⟩ :=
    hf _ x x' (fun _ _ => .inl) hx _ _ y y' grown grown' hrest hrest'
  refine ⟨fresh ++ fresh', List.append_assoc .., List.append_assoc .., ?_⟩
  rw [List.length_append, List.length_append, extended_extended] at hy
  rwa [List.length_append]

theorem alike_takePlace (name? : Option String) :
    Alike R (takePlace name?) (takePlace name?) fun S b b' => b.Similar S b' := by
  rintro store store' _ _ _ _ ⟨⟩ ⟨⟩
  have hplace : Extended R store.length store'.length 1 store.length store'.length :=
    .inr ⟨0, by omega, rfl, rfl⟩
  exact ⟨[⟨name?, none⟩], rfl, rfl, .forward name? hplace⟩

theorem alike_toBuilt {x x' : Operand} (h : x.Similar R x') :
    Alike R (liftM x.toBuilt) (liftM x'.toBuilt) fun S b b' => b.Similar S b' := by
  refine .lift ?_
  rintro b b' hb hb'
  cases h with
  | parser hsimilar =>
    cases hb
    cases hb'
    exact hsimilar
  | value tree => cases hb

theorem Operand.Similar.toParser {x x' : Operand} (h : x.Similar R x') {p p' : Parser}
    (hp : x.toParser = .ok p) (hp' : x'.toParser = .ok p') : p.Similar R p' := by
  cases h with
  | parser hsimilar =>
    cases hp
    cases hp'
    exact hsimilar.parser
  | value tree => cases hp

theorem alike_toParser {x x' : Operand} (h : x.Similar R x') :
    Alike R (liftM x.toParser) (liftM x'.toParser) fun S p p' => p.Similar S p' :=
  .lift fun _ _ hp hp' => h.toParser hp hp'

theorem alike_toParsers {xs xs' : List Operand} (h : List.Forall₂ (Operand.Similar R) xs xs') :
    Alike R (liftM (Operand.toParsers xs)) (liftM (Operand.toParsers xs')) fun S ps ps' =>
      List.Forall₂ (Parser.Similar S) ps ps' := by
  refine .lift fun ps ps' hps hps' => ?_
  rw [Operand.toParsers, mapM_eq_ok_iff] at hps hps'
  induction h generalizing ps ps' with
  | nil =>
    cases hps
    cases hps'
    exact .nil
  | cons hx _ ih =>
    cases hps with
    | cons hp hps =>
      cases hps' with
      | cons hp' hps' => exact .cons (hx.toParser hp hp') (ih _ _ hps hps')

end

/-- Parsers that have been given the same name are similar, and so are those of the grammar. -/
structure Agree (R : Nat → Nat → Prop) (bindings bindings' : List (String × Built)) : Prop where
  grammar : R Grammar.conditionPlace Grammar.conditionPlace
  similar : ∀ name b b', bindings.lookup name = some b → bindings'.lookup name = some b' →
    b.Similar R b'

theorem Production.places_parser (production : Production) :
    ∀ place ∈ production.parser.places, place = Grammar.conditionPlace := by
  cases production <;> decide

theorem Production.built_similar {R : Nat → Nat → Prop} (production : Production)
    (h : R Grammar.conditionPlace Grammar.conditionPlace) :
    production.built.Similar R production.built := by
  have hparser : production.parser.Similar R production.parser :=
    .refl_of fun place hplace => by
      rw [production.places_parser place hplace]
      exact h
  cases production with
  | condition => exact .forward _ h
  | _ => exact .other hparser

section
variable {bindings bindings' : List (String × Built)}

theorem Agree.mono {R : Nat → Nat → Prop} (h : Agree R bindings bindings') {S : Nat → Nat → Prop}
    (hS : ∀ a b, R a b → S a b) : Agree S bindings bindings' where
  grammar := hS _ _ h.grammar
  similar name b b' hb hb' := (h.similar name b b' hb hb').mono hS

namespace Description

mutual

/-- A description stands for similar parsers where those are similar that it refers to. -/
theorem build_alike {R : Nat → Nat → Prop} (h : Agree R bindings bindings') :
    ∀ d : Description, Alike R (d.build bindings) (d.build bindings') Operand.Similar
  | empty tree => .pure (.parser (.other (.empty tree)))
  | elem kind => .pure (.parser (.other (.namedLeft (.namedRight (.elem kind)))))
  | jump distance tree => .pure (.parser (.other (.jump distance tree)))
  | value tree => .pure (.value tree)
  | production q => .pure (.parser (q.built_similar h.grammar))
  | faulty e => by
    rintro _ _ _ _ _ _ ⟨⟩
  | reference name => by
    rw [build, build]
    cases hb : bindings.lookup name with
    | none => rintro _ _ _ _ _ _ ⟨⟩
    | some b =>
      cases hb' : bindings'.lookup name with
      | none => rintro _ _ _ _ _ _ - ⟨⟩
      | some b' => exact .pure (.parser (h.similar name b b' hb hb'))
  | forward name? => .bind (alike_takePlace name?) fun _ _ _ _ hb => .pure (.parser hb)
  | pair first second combine =>
    .bind (build_alike h first) fun S x x' hS hx =>
      .bind (build_alike (h.mono hS) second) fun S' y y' hS' hy =>
        .bind (alike_toParser (hx.mono hS')) fun S'' p p' hS'' hp =>
          .bind (alike_toParser (hy.mono hS'')) fun _ _ _ hT hq =>
            .pure (.parser (.other (.pair (hp.mono fun a _ b _ => hT a b) hq)))
  | many inner =>
    .bind (build_alike h inner) fun _ _ _ _ hx =>
      .bind (alike_toParser hx) fun _ _ _ _ hp => .pure (.parser (.other (.many hp)))
  | transform inner f =>
    .bind (build_alike h inner) fun _ _ _ _ hx =>
      .bind (alike_toParser hx) fun _ _ _ _ hp => .pure (.parser (.other (.transform hp)))
  | probe label inner =>
    .bind (build_alike h inner) fun _ _ _ _ hx =>
      .bind (alike_toParser hx) fun _ _ _ _ hp => .pure (.parser (.other (.probe hp)))
  | named inner name? =>
    .bind (build_alike h inner) fun _ _ _ _ hx =>
      .bind (alike_toBuilt hx) fun _ _ _ _ hb => .pure (.parser (hb.copy name?))
  | sequence parts =>
    .bind (buildAll_alike h parts) fun _ _ _ _ hxs =>
      .bind (alike_toParsers hxs) fun _ _ _ _ hps => .pure (.parser (.other (.sequence hps)))
  | choice alternatives =>
    .bind (buildAll_alike h alternatives) fun _ _ _ _ hxs =>
      .bind (alike_toParsers hxs) fun _ _ _ _ hps => .pure (.parser (.other (.choice hps)))
  | parenthesized parts =>
    .bind (buildAll_alike h parts) fun _ _ _ _ hxs =>
      .bind (alike_toParsers hxs) fun _ _ _ _ hps =>
        .pure (.parser (.other (.parenthesized hps)))

theorem buildAll_alike {R : Nat → Nat → Prop} (h : Agree R bindings bindings') :
    ∀ ds : List Description, Alike R (buildAll bindings ds) (buildAll bindings' ds)
      fun S xs xs' => List.Forall₂ (Operand.Similar S) xs xs'
  | [] => .pure .nil
  | d :: ds =>
    .bind (build_alike h d) fun _ _ _ hS hx =>
      .bind (buildAll_alike (h.mono hS) ds) fun _ _ _ hS' hxs =>
        .pure (.cons (hx.mono hS') hxs)

end

end Description

end

namespace Workspace

variable {R : Nat → Nat → Prop} {w w' : Workspace} {d : Description} {b b' : Built}

theorem build_similar (h : Agree R w.bindings w'.bindings) (hb : (w.build d).2 = .ok (.parser b))
    (hb' : (w'.build d).2 = .ok (.parser b')) :
    ∃ fresh, (w.build d).1.store = w.store ++ fresh ∧ (w'.build d).1.store = w'.store ++ fresh ∧
      b.Similar (Extended R w.store.length w'.store.length fresh.length) b' := by
  obtain ⟨fresh, hgrown, hgrown', hsimilar⟩ := Description.build_alike h d w.store w'.store _ _ _ _
    (Prod.ext hb rfl) (Prod.ext hb' rfl)
  cases hsimilar with
  | parser hsimilar => exact ⟨fresh, hgrown, hgrown', hsimilar⟩

/-! ### Histories that follow another one -/

/-- The parsers of the first workspace are similar to those of the second, in which nothing is
missing that the first has. -/
structure Follows (R : Nat → Nat → Prop) (w w' : Workspace) : Prop where
  inStore : ∀ a b, R a b → a < w.store.length
  functional : ∀ a b b', R a b → R a b' → b = b'
  grammar : R Grammar.conditionPlace Grammar.conditionPlace
  bindings : ∀ name b, w.bindings.lookup name = some b →
    ∃ b', w'.bindings.lookup name = some b' ∧ b.Similar R b'
  bodies : ∀ a b p, R a b → w.store.body? a = some p →
    ∃ p', w'.store.body? b = some p' ∧ p.Similar R p'

namespace Follows

/-- New places may be related in the same order with any others. -/
theorem extend (h : Follows R w w') {store : Store} (hgrown : w.store.Grown store) {n : Nat}
    (hn : w.store.length + n ≤ store.length) (l' : Nat) :
    Follows (Extended R w.store.length l' n) { w with store := store } w' where
  inStore a b hab := by
    rcases hab with hab | ⟨k, hk, rfl, rfl⟩
    · have := h.inStore a b hab
      change a < store.length
      omega
    · change _ < store.length
      omega
  functional a b b' hab hab' := by
    rcases hab with hab | ⟨k, hk, rfl, rfl⟩
    · have hold := h.inStore a b hab
      rcases hab' with hab' | ⟨k, hk, rfl, rfl⟩
      · exact h.functional a b b' hab hab'
      · omega
    · rcases hab' with hab' | ⟨k', hk', heq, rfl⟩
      · have hold := h.inStore _ _ hab'
        omega
      · omega
  grammar := .inl h.grammar
  bindings name b hb := by
    obtain ⟨b', hb', hsimilar⟩ := h.bindings name b hb
    exact ⟨b', hb', hsimilar.mono fun _ _ => .inl⟩
  bodies a b p hab hp := by
    have hp : w.store.body? a = some p := by rwa [← hgrown.body? a]
    rcases hab with hab | ⟨k, hk, rfl, rfl⟩
    · obtain ⟨p', hp', hsimilar⟩ := h.bodies a b p hab hp
      exact ⟨p', hp', hsimilar.mono fun _ _ _ _ => .inl⟩
    · have := Store.lt_length_of_body? hp
      omega

theorem grow (h : Follows R w w') (d : Description) : Follows R (w.build d).1 w' := by
  have hgrown := build_grown w d
  have hlength : w.store.length + 0 ≤ (w.build d).1.store.length := by
    obtain ⟨fresh, hstore, -⟩ := hgrown
    rw [hstore, List.length_append]
    omega
  have hextend := h.extend hgrown hlength 0
  rwa [extended_zero] at hextend

/-- A description read in both workspaces. -/
theorem build (h : Follows R w w') {w₀ : Workspace}
    (hbindings : ∀ name c, w₀.bindings.lookup name = some c →
      w'.bindings.lookup name = some c)
    (hb : (w.build d).2 = .ok (.parser b)) (hb' : (w₀.build d).2 = .ok (.parser b')) :
    ∃ S, Follows S (w.build d).1 w' ∧ b.Similar S b' := by
  have hagree : Agree R w.bindings w₀.bindings := by
    refine ⟨h.grammar, fun name c c₀ hc hc₀ => ?_⟩
    obtain ⟨c', hc', hsimilar⟩ := h.bindings name c hc
    rw [hbindings name c₀ hc₀] at hc'
    cases hc'
    exact hsimilar
  obtain ⟨fresh, hgrown, -, hsimilar⟩ := build_similar hagree hb hb'
  have hlength : (w.build d).1.store.length = w.store.length + fresh.length := by
    rw [hgrown, List.length_append]
  exact ⟨_, h.extend (build_grown w d) (Nat.le_of_eq hlength.symm) w₀.store.length, hsimilar⟩

/-- A name is given to similar parsers. -/
theorem bind (h : Follows R w w') {name : String} (hb : w'.bindings.lookup name = some b')
    (hsimilar : b.Similar R b') : Follows R { w with bindings := (name, b) :: w.bindings } w' where
  inStore := h.inStore
  functional := h.functional
  grammar := h.grammar
  bindings name' c hc := by
    change ((name, b) :: w.bindings).lookup name' = some c at hc
    rw [List.lookup_cons] at hc
    split at hc
    · next hname =>
      cases hc
      rw [eq_of_beq hname]
      exact ⟨b', hb, hsimilar⟩
    · exact h.bindings name' c hc
  bodies := h.bodies

/-- A forward is supplied with similar parsers. -/
theorem supply (h : Follows R w w') {p p' : Parser} {a b : Nat} (hab : R a b)
    {name? : Option String}
    (hp : w'.store.body? b = some p') (hsimilar : p.Similar R p') :
    Follows R { w with store := w.store.set a ⟨name?, some p⟩ } w' where
  inStore a' b' hab' := by
    change a' < (w.store.set a ⟨name?, some p⟩).length
    rw [List.length_set]
    exact h.inStore a' b' hab'
  functional := h.functional
  grammar := h.grammar
  bindings := h.bindings
  bodies a' b' q hab' hq := by
    change Store.body? (w.store.set a ⟨name?, some p⟩) a' = some q at hq
    by_cases hsame : a' = a
    · subst hsame
      rw [Store.body?_set_self (h.inStore a' b hab)] at hq
      cases hq
      rw [h.functional a' b' b hab' hab]
      exact ⟨p', hp, hsimilar⟩
    · rw [Store.body?_set_ne hsame] at hq
      exact h.bodies a' b' q hab' hq

theorem start (w' : Workspace) (hstore : ∀ place p, Workspace.start.store.body? place = some p →
    w'.store.body? place = some p) :
    Follows (fun a b => a = b ∧ a < Grammar.store.length) Workspace.start w' where
  inStore a b hab := hab.2
  functional := by
    rintro a b b' ⟨rfl, -⟩ ⟨rfl, -⟩
    rfl
  grammar := ⟨rfl, by decide⟩
  bindings name b hb := by cases hb
  bodies := by
    rintro a b p ⟨rfl, hlt⟩ hp
    obtain rfl : a = Grammar.conditionPlace := Nat.lt_one_iff.mp hlt
    refine ⟨p, hstore _ p hp, .refl_of ?_⟩
    cases hp
    decide

/-- The parsers that a history gives names, and those that it supplies, are similar to those of
another history in which the same is done. -/
theorem perform {steps : List Step}
    (hnames : ((Workspace.start.declarations steps).filterMap Step.boundName?).Nodup)
    (h : Follows R w (Workspace.start.after steps)) {step : Step}
    (hstep : (w.perform step).2.isDeclaration → step ∈ Workspace.start.declarations steps) :
    ∃ S, Follows S (w.perform step).1 (Workspace.start.after steps) := by
  rcases perform_cases w step with ⟨name, d, b, rfl, hbuild, hperform⟩ |
    ⟨name, d, b, place, found, rfl, hbuild, hfound, hbody⟩ | ⟨hstore, -⟩
  · obtain ⟨w₀, b₀, hbindings, hbuild₀, hname⟩ :=
      exists_of_bind_mem hnames (hstep (by rw [hperform]; rfl))
    obtain ⟨S, hfollows, hsimilar⟩ := h.build hbindings hbuild hbuild₀
    rw [hperform]
    exact ⟨S, hfollows.bind hname hsimilar⟩
  · have hperform := perform_define_undefined hbuild hfound hbody
    obtain ⟨w₀, b₀, place₀, name?₀, hbindings, hbuild₀, hname₀, hsupplied⟩ :=
      exists_of_define_mem hnames (hstep (by rw [hperform]; rfl))
    obtain ⟨S, hfollows, hsimilar⟩ := h.build hbindings hbuild hbuild₀
    -- Both histories supply what has been given the same name, and so the places are related.
    obtain ⟨name?, hname, -⟩ := forwardAt_eq_ok_iff.mp hfound
    obtain ⟨b', hb', hforward⟩ := hfollows.bindings name _ hname
    rw [hname₀] at hb'
    cases hb'
    rw [hperform]
    cases hforward with
    | forward _ hplace => exact ⟨S, hfollows.supply hplace hsupplied hsimilar.parser⟩
  · rw [hstore]
    exact ⟨R, h.grow step.description⟩

theorem after {steps : List Step}
    (hnames : ((Workspace.start.declarations steps).filterMap Step.boundName?).Nodup)
    (h : Follows R w (Workspace.start.after steps)) {steps' : List Step}
    (hsteps : w.declarations steps' ⊆ Workspace.start.declarations steps) :
    ∃ S, Follows S (w.after steps') (Workspace.start.after steps) := by
  induction steps' generalizing w R with
  | nil => exact ⟨R, h⟩
  | cons step steps' ih =>
    rw [declarations, List.append_subset] at hsteps
    obtain ⟨S, hfollows⟩ := h.perform hnames fun hstep => hsteps.1 (by rw [if_pos hstep]; simp)
    exact ih hfollows hsteps.2

end Follows

end Workspace

/-! ### Runs -/

/-- A run of the parser may come to the place: it is one of its own, or one of those of a parser
that has been supplied for such a place. -/
inductive Parser.Involves (store : Store) : Parser → Nat → Prop where
  | own {p : Parser} {place : Nat} : place ∈ p.places → Involves store p place
  | through {p body : Parser} {place place' : Nat} : place ∈ p.places →
      store.body? place = some body → Involves store body place' → Involves store p place'

theorem Parser.Involves.body {store : Store} {p q : Parser} {place place' : Nat}
    (h : p.Involves store place) (hq : store.body? place = some q) (hplace : place' ∈ q.places) :
    p.Involves store place' := by
  induction h with
  | own hown => exact .through hown hq (.own hplace)
  | through hown hbody _ ih => exact .through hown hbody (ih hq)

theorem Store.resolve_of_body? {store : Store} {place : Nat} {p : Parser}
    (h : store.body? place = some p) : store.resolve place = .ok p := by
  rw [body?, Option.bind_eq_some_iff] at h
  obtain ⟨⟨name?, body?⟩, hplace, rfl⟩ := h
  exact resolve_eq_ok_iff.mpr ⟨name?, hplace⟩

namespace Workspace

/-- The description stands for a parser, and a parser has been supplied for every forward that a run
of it may come to. -/
def Settled (w : Workspace) (d : Description) : Prop :=
  ∃ b, (w.build d).2 = .ok (.parser b) ∧
    ∀ place, b.parser.Involves (w.build d).1.store place →
      ∃ body, (w.build d).1.store.body? place = some body

/-- A description is settled if the places of its parser are among some for which parsers have been
supplied that have no other places. -/
theorem settled_of_closed {w : Workspace} {d : Description} (b : Built) (places : List Nat)
    (hb : (w.build d).2 = .ok (.parser b)) (hown : b.parser.places ⊆ places)
    (hclosed : ∀ place ∈ places, ∃ body, (w.build d).1.store.body? place = some body ∧
      body.places ⊆ places) : w.Settled d := by
  have hinvolved {q : Parser} {place : Nat} (h : q.Involves (w.build d).1.store place)
      (hq : q.places ⊆ places) : place ∈ places := by
    induction h with
    | own hplace => exact hq hplace
    | through hplace hbody _ ih =>
      obtain ⟨body, hbody', hplaces⟩ := hclosed _ (hq hplace)
      rw [hbody] at hbody'
      cases hbody'
      exact ih hplaces
  refine ⟨b, hb, fun place hplace => ?_⟩
  obtain ⟨body, hbody, -⟩ := hclosed place (hinvolved hplace hown)
  exact ⟨body, hbody⟩

/-- The parser that the description stands for, run on the tokens from the index on, ends with the
outcome after these calls. -/
def RunEnds (w : Workspace) (d : Description) (tokens : Array Token) (i : Int) (o : Outcome Tree)
    (calls : List (String × Int)) : Prop :=
  ∃ b n a, (w.build d).2 = .ok (.parser b) ∧
    b.parser.attempt (w.build d).1.store tokens n i = some a ∧ a.outcome = o ∧ a.calls = calls

/-- Two workspaces that follow the same one run a settled description alike. -/
theorem Follows.runEnds {R R' : Nat → Nat → Prop} {w₀ w w' : Workspace} (h : Follows R w w₀)
    (h' : Follows R' w' w₀) {d : Description} (hsettled : w.Settled d) (hsettled' : w'.Settled d)
    {tokens : Array Token} {i : Int} {o : Outcome Tree} {calls : List (String × Int)}
    (hrun : w.RunEnds d tokens i o calls) : w'.RunEnds d tokens i o calls := by
  obtain ⟨b, n, a, hb, ha, rfl, rfl⟩ := hrun
  obtain ⟨_, hb₁, hdefined⟩ := hsettled
  rw [hb] at hb₁
  cases hb₁
  obtain ⟨b', hb', hdefined'⟩ := hsettled'
  have hagree : Agree (fun a c => ∃ b, R a b ∧ R' c b) w.bindings w'.bindings := by
    refine ⟨⟨_, h.grammar, h'.grammar⟩, fun name c c' hc hc' => ?_⟩
    obtain ⟨c₀, hc₀, hsimilar⟩ := h.bindings name c hc
    obtain ⟨_, hc₁, hsimilar'⟩ := h'.bindings name c' hc'
    rw [hc₀] at hc₁
    cases hc₁
    exact hsimilar.via hsimilar'
  obtain ⟨fresh, -, -, hsimilar⟩ := build_similar hagree hb hb'
  -- Only the places matter that are involved, and for all of these parsers have been supplied.
  let S (a c : Nat) : Prop :=
    Extended (fun a c => ∃ b, R a b ∧ R' c b) w.store.length w'.store.length fresh.length a c ∧
      b.parser.Involves (w.build d).1.store a ∧ b'.parser.Involves (w'.build d).1.store c
  have hstore : (w.build d).1.store.Similar S (w'.build d).1.store := by
    rintro a c ⟨hac, hinvolved, hinvolved'⟩
    obtain ⟨q, hq⟩ := hdefined a hinvolved
    obtain ⟨q', hq'⟩ := hdefined' c hinvolved'
    have hold : w.store.body? a = some q := by rwa [← (build_grown w d).body? a]
    have hold' : w'.store.body? c = some q' := by rwa [← (build_grown w' d).body? c]
    obtain ⟨place, hab, hcb⟩ : ∃ place, R a place ∧ R' c place := by
      rcases hac with hac | ⟨k, -, rfl, -⟩
      · exact hac
      · have := Store.lt_length_of_body? hold
        omega
    obtain ⟨q₀, hq₀, hsimilar⟩ := h.bodies a place q hab hold
    obtain ⟨_, hq₁, hsimilar'⟩ := h'.bodies c place q' hcb hold'
    rw [hq₀] at hq₁
    cases hq₁
    refine .inl ⟨q, q', Store.resolve_of_body? hq, Store.resolve_of_body? hq', ?_⟩
    have hvia := hsimilar.trans (hsimilar'.symm fun _ _ _ _ hcb => hcb)
    exact hvia.mono fun a' ha' c' hc' hac' =>
      ⟨.inl hac', hinvolved.body hq ha', hinvolved'.body hq' hc'⟩
  have hsame : b.parser.Similar S b'.parser :=
    hsimilar.parser.mono fun a ha c hc hac => ⟨hac, .own ha, .own hc⟩
  obtain ⟨m, a', ha', ho, hcalls⟩ := Parser.attempt_of_similar hstore hsame ha
  exact ⟨b', m, a', hb', ha', ho, hcalls⟩

/-- Forwards are supplied once, and looked up late. What a forward stands for is the argument of the
first step that supplies it and is not refused, and never changes afterwards. A step that would
supply it again is refused, and so is one that would supply a value; neither changes anything but
for the new places that its argument takes, so that a forward that has been refused a value may
still be supplied. The error shows the value, unless it has a number that cannot be written. Copies
of a forward are no forwards: they are never supplied, and look up what the forward is supplied
with. It follows that two histories in which the same names are given and the same forwards
supplied, in whichever order, run a description alike, as soon as everything has been supplied that
it involves. No name is given twice, since otherwise the order says what a name refers to. -/
theorem forwards_supplied_once (w : Workspace) :
    (∀ steps place p, (w.after steps).store.body? place = some p ↔
      w.store.body? place = some p ∨
        ∃ before step later, steps = before ++ step :: later ∧
          (w.after before).Supplies step place p) ∧
    (∀ before step place p, (w.after before).Supplies step place p →
      (w.after before).store.body? place = none ∧
        ∀ later, (w.after (before ++ step :: later)).store.body? place = some p) ∧
    (∀ name d x place found, (w.build d).2 = .ok x →
      (w.build d).1.forwardAt name = .ok (place, found) →
      w.store.Grown (w.build d).1.store ∧ (w.build d).1.bindings = w.bindings ∧
      (∀ p, w.store.body? place = some p → w.perform (.define name d) =
        ((w.build d).1, .refused (.alreadyDefined (found.name?.getD "")))) ∧
      (w.store.body? place = none →
        (∀ tree, x = .value tree →
          ((∀ n ∈ tree.wholeNumbers, WithinDigitLimit n) →
            ∃ shown, tree.describe = .ok shown ∧
              w.perform (.define name d) = ((w.build d).1, .refused (.notAParser shown))) ∧
          ((¬ ∀ n ∈ tree.wholeNumbers, WithinDigitLimit n) →
            ∃ e, w.perform (.define name d) = ((w.build d).1, .refused (.unwritable e))) ∧
          (w.perform (.define name d)).1.store.body? place = none) ∧
        ∀ b, x = .parser b → w.Supplies (.define name d) place b.parser)) ∧
    (∀ name d x p, (w.build d).2 = .ok x →
      w.bindings.lookup name = some (.other p) →
      w.perform (.define name d) = ((w.build d).1, .refused (.notAForward name))) ∧
    (∀ d name? b, (w.build (.named d name?)).2 = .ok (.parser b) →
      ∃ p, b = .other p) ∧
    ∀ steps steps₁ steps₂,
      ((start.declarations steps).filterMap Step.boundName?).Nodup →
      start.declarations steps₁ ⊆ start.declarations steps →
      start.declarations steps₂ ⊆ start.declarations steps →
      ∀ d, (start.after steps₁).Settled d → (start.after steps₂).Settled d →
        ∀ tokens i o calls, (start.after steps₁).RunEnds d tokens i o calls ↔
          (start.after steps₂).RunEnds d tokens i o calls := by
  refine ⟨body?_after_iff w, fun before step place p hsupplies => ⟨?_, fun later => ?_⟩,
    fun name d x place found hbuild hfound => ?_, fun name d x p hbuild hname => ?_,
    fun d name? b => build_named_eq_other,
    fun steps steps₁ steps₂ hnames h₁ h₂ d hsettled₁ hsettled₂ tokens i o calls => ?_⟩
  · exact (body?_perform_iff _ step place p).2 hsupplies
  · exact (body?_after_iff w _ place p).mpr (.inr ⟨before, step, later, rfl, hsupplies⟩)
  · obtain ⟨-, -, hplace⟩ := forwardAt_eq_ok_iff.mp hfound
    have hbody : w.store.body? place = found.body? := by
      rw [← (build_grown w d).body? place, Store.body?, hplace, Option.bind_some]
    refine ⟨build_grown w d, build_bindings w d, fun p hp => ?_, fun hnone => ⟨?_, ?_⟩⟩
    · exact perform_define_error hbuild (supply_of_defined hfound (by rw [← hbody, hp]; rfl))
    · rintro tree rfl
      have hperform := perform_define_error hbuild (supply_value hfound (hbody ▸ hnone) tree)
      rw [hperform]
      refine ⟨fun hlimit => ?_, fun hlimit => ?_, by rw [(build_grown w d).body? place, hnone]⟩
      · obtain ⟨shown, hshown, heq⟩ := ofValue_eq_notAParser hlimit
        exact ⟨shown, hshown, by rw [heq]⟩
      · obtain ⟨e, heq⟩ := ofValue_eq_unwritable hlimit
        exact ⟨e, by rw [heq]⟩
    · rintro b rfl
      refine ⟨name, d, b, found, rfl, hbuild, rfl, hfound, ?_⟩
      rw [perform_define_undefined hbuild hfound (hbody ▸ hnone)]
  · exact perform_define_error hbuild (supply_of_other hname)
  · have hstart := Follows.start (start.after steps) fun place p hp => body?_after hp steps
    obtain ⟨R₁, hfollows₁⟩ := hstart.after hnames h₁
    obtain ⟨R₂, hfollows₂⟩ := hstart.after hnames h₂
    exact ⟨hfollows₁.runEnds hfollows₂ hsettled₁ hsettled₂,
      hfollows₂.runEnds hfollows₁ hsettled₂ hsettled₁⟩

theorem forwards_supplied_once_reordered :
    let word : Description := .probe "word" (.elem .and)
    let steps₁ : List Step := [.bind "f" (.forward (some "f")), .bind "p" (.many (.reference "f")),
      .define "f" word, .define "f" (.elem .or)]
    let steps₂ : List Step := [.bind "q" (.forward none), .bind "f" (.forward (some "f")),
      .define "f" (.value .absent), .define "f" word, .bind "p" (.many (.reference "f"))]
    let steps : List Step := [.bind "f" (.forward (some "f")), .bind "q" (.forward none),
      .bind "p" (.many (.reference "f")), .define "f" word]
    let token : Token := ⟨.and, "AND", .absent, none⟩
    let o : Outcome Tree := .matched (.list [.token token]) 1
    ((start.declarations steps).filterMap Step.boundName?).Nodup ∧
    start.declarations steps₁ ⊆ start.declarations steps ∧
    start.declarations steps₂ ⊆ start.declarations steps ∧
    (start.after steps₁).Settled (.reference "p") ∧ (start.after steps₂).Settled (.reference "p") ∧
    (start.after steps₁).RunEnds (.reference "p") #[token] 0 o [("word", 0), ("word", 1)] ∧
    (start.after steps₂).RunEnds (.reference "p") #[token] 0 o [("word", 0), ("word", 1)] := by
  intro word steps₁ steps₂ steps token o
  have hnames : ((start.declarations steps).filterMap Step.boundName?).Nodup := by
    have heq : (start.declarations steps).filterMap Step.boundName? = ["f", "q", "p"] := rfl
    rw [heq]
    decide
  have h₁ : start.declarations steps₁ ⊆ start.declarations steps := by
    have heq : start.declarations steps₁ = steps₁.take 3 := rfl
    have heq' : start.declarations steps = steps := rfl
    rw [heq, heq']
    simp [steps₁, steps]
  have h₂ : start.declarations steps₂ ⊆ start.declarations steps := by
    have heq : start.declarations steps₂ = [steps₂[0], steps₂[1], steps₂[3], steps₂[4]] := rfl
    have heq' : start.declarations steps = steps := rfl
    rw [heq, heq']
    simp [steps₂, steps]
  have hsettled₁ : (start.after steps₁).Settled (.reference "p") :=
    settled_of_closed (.other (.many (.named "f" (.forward 1)))) [1] rfl
      (List.Subset.refl [1]) (List.forall_mem_singleton.mpr ⟨_, rfl, List.nil_subset _⟩)
  have hsettled₂ : (start.after steps₂).Settled (.reference "p") :=
    settled_of_closed (.other (.many (.named "f" (.forward 2)))) [2] rfl
      (List.Subset.refl [2]) (List.forall_mem_singleton.mpr ⟨_, rfl, List.nil_subset _⟩)
  have hrun₁ : (start.after steps₁).RunEnds (.reference "p") #[token] 0 o
      [("word", 0), ("word", 1)] :=
    ⟨.other (.many (.named "f" (.forward 1))), 8, _, rfl, rfl, rfl, rfl⟩
  obtain ⟨-, -, -, -, -, horder⟩ := forwards_supplied_once start
  have hrun₂ := (horder steps steps₁ steps₂ hnames h₁ h₂ _ hsettled₁ hsettled₂ _ _ _ _).mp hrun₁
  exact ⟨hnames, h₁, h₂, hsettled₁, hsettled₂, hrun₁, hrun₂⟩

/-- A forward is not supplied with a number, but if that cannot be written, the error does not say
so. -/
theorem perform_define_of_not_withinDigitLimit {n : Int} (hn : ¬ WithinDigitLimit n) :
    ∃ e, ((start.after [.bind "f" (.forward (some "f"))]).perform
      (.define "f" (.value (.number (.integer n))))).2 = .refused (.unwritable e) := by
  have hlimit : ¬ ∀ m ∈ (Tree.number (.integer n)).wholeNumbers, WithinDigitLimit m :=
    fun h => hn (h n (List.mem_singleton_self n))
  obtain ⟨e, he⟩ := ofValue_eq_unwritable hlimit
  let w := start.after [.bind "f" (.forward (some "f"))]
  have hbuild : (w.build (.value (.number (.integer n)))).2 = .ok (.value (.number (.integer n))) :=
    rfl
  have hfound : (w.build (.value (.number (.integer n)))).1.forwardAt "f" =
      .ok (1, ⟨some "f", none⟩) := rfl
  exact ⟨e, by rw [perform_define_error hbuild (supply_value hfound rfl _), he]⟩

theorem perform_define_powerOfTen :
    ∃ e, ((start.after [.bind "f" (.forward (some "f"))]).perform
      (.define "f" (.value (.number (.integer (Nat.pow 10 digitLimit)))))).2 =
        .refused (.unwritable e) :=
  perform_define_of_not_withinDigitLimit not_withinDigitLimit_pow

end Workspace

end Conditions
