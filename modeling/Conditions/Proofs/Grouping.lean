import Conditions.Proofs.Regrouping

/-!
# Grouping

Parsers one behind the other may be grouped as one likes, and so may alternatives: whatever groups
of groups the same parsers are put into, they are regrouped, and so they run alike.
-/

namespace Conditions

namespace Parser

/-- Parsers, in groups, and these in groups, and so on. -/
inductive Grouping where
  | single (p : Parser)
  | group (members : List Grouping)

namespace Grouping

mutual

/-- The parsers in all the groups, in order. -/
def parsers : Grouping → List Parser
  | single p => [p]
  | group members => parsersOfAll members

/-- The parsers in groups that follow one another. -/
def parsersOfAll : List Grouping → List Parser
  | [] => []
  | g :: gs => g.parsers ++ parsersOfAll gs

end

mutual

/-- The parser in which the members of each group are joined. -/
def joined (join : List Parser → Parser) : Grouping → Parser
  | single p => p
  | group members => join (joinedAll join members)

/-- The parsers in which the members of each group are joined. -/
def joinedAll (join : List Parser → Parser) : List Grouping → List Parser
  | [] => []
  | g :: gs => g.joined join :: joinedAll join gs

end

/-- Where parsers are joined, a group may be taken apart. -/
def TakesApart (kept : Bool) (join : List Parser → Parser) : Prop :=
  ∀ ps qs rs, Regrouped kept (join (ps ++ join qs :: rs)) (join (ps ++ qs ++ rs))

section
variable {kept : Bool} {join : List Parser → Parser}

mutual

/-- With a group, the groups inside it may be taken apart as well, from the outermost one on. -/
theorem regrouped_joined (hjoin : TakesApart kept join) (ps rs : List Parser) :
    ∀ g : Grouping, Regrouped kept (join (ps ++ g.joined join :: rs)) (join (ps ++ g.parsers ++ rs))
  | single p => by
    rw [joined, parsers, List.append_assoc, List.singleton_append]
    exact .refl _
  | group members => (hjoin ps _ rs).trans (regrouped_joinedAll hjoin ps rs members)

theorem regrouped_joinedAll (hjoin : TakesApart kept join) (ps rs : List Parser) :
    ∀ gs : List Grouping,
      Regrouped kept (join (ps ++ joinedAll join gs ++ rs)) (join (ps ++ parsersOfAll gs ++ rs))
  | [] => .refl _
  | g :: gs => by
    have hfirst := regrouped_joined hjoin ps (joinedAll join gs ++ rs) g
    have hrest := regrouped_joinedAll hjoin (ps ++ g.parsers) rs gs
    simp only [joinedAll, parsersOfAll, List.append_assoc, List.cons_append] at hfirst hrest ⊢
    exact hfirst.trans hrest

end

/-- The same parsers in the same order are regrouped, in whatever groups they are. -/
theorem regrouped_of_parsers_eq (hjoin : TakesApart kept join) {gs gs' : List Grouping}
    (h : parsersOfAll gs = parsersOfAll gs') :
    Regrouped kept (join (joinedAll join gs)) (join (joinedAll join gs')) := by
  have hapart := regrouped_joinedAll hjoin [] [] gs
  have hapart' := regrouped_joinedAll hjoin [] [] gs'
  simp only [List.nil_append, List.append_nil] at hapart hapart'
  exact hapart.trans (h ▸ hapart'.symm)

end

end Grouping

/-- Grouping does not matter. A choice between alternatives ends as the choice between a choice of
the first ones and one of the others does, and makes the same calls. Parsers one behind the other
match if the first ones match and the others match behind them, with the trees of the first ones and
then those of the others; they fail if the first ones fail, or if these match and the others fail
behind them, and so it is with errors; they make the calls of the first ones and then, if these have
matched, those of the others. Whatever groups of groups the same parsers are put into, they differ
in nothing but grouping; and parsers that do so match up to the same indices, fail alike, end with
the same errors and make the same calls. Their trees are the same as well if only alternatives are
grouped differently. All this holds, too, if what has been supplied for forwards is grouped
differently, as long as no function refuses a tree that is grouped differently. -/
theorem grouping_irrelevant (store : Store) (tokens : Array Token) (i : Int) :
    (∀ (ps qs : List Parser) (o : Outcome Tree) (calls : List (String × Int)),
      course store tokens (.choice (ps ++ qs)) i o calls ↔
        course store tokens (.choice [.choice ps, .choice qs]) i o calls) ∧
    (∀ (ps qs : List Parser) (calls : List (String × Int)),
      (∀ (tree : Tree) (k : Int),
        course store tokens (.sequence (ps ++ qs)) i (.matched tree k) calls ↔
          ∃ ts us j calls₁ calls₂,
            course store tokens (.sequence ps) i (.matched (.list ts) j) calls₁ ∧
            course store tokens (.sequence qs) j (.matched (.list us) k) calls₂ ∧
            tree = .list (ts ++ us) ∧ calls = calls₁ ++ calls₂) ∧
      (course store tokens (.sequence (ps ++ qs)) i .failed calls ↔
        course store tokens (.sequence ps) i .failed calls ∨
          ∃ tree j calls₁ calls₂,
            course store tokens (.sequence ps) i (.matched tree j) calls₁ ∧
            course store tokens (.sequence qs) j .failed calls₂ ∧ calls = calls₁ ++ calls₂) ∧
      ∀ e : RunError,
        course store tokens (.sequence (ps ++ qs)) i (.raised e) calls ↔
          course store tokens (.sequence ps) i (.raised e) calls ∨
            ∃ tree j calls₁ calls₂,
              course store tokens (.sequence ps) i (.matched tree j) calls₁ ∧
              course store tokens (.sequence qs) j (.raised e) calls₂ ∧
              calls = calls₁ ++ calls₂) ∧
    (∀ gs gs' : List Grouping, Grouping.parsersOfAll gs = Grouping.parsersOfAll gs' →
      Regrouped true (.choice (Grouping.joinedAll .choice gs))
        (.choice (Grouping.joinedAll .choice gs')) ∧
      Regrouped false (.sequence (Grouping.joinedAll .sequence gs))
        (.sequence (Grouping.joinedAll .sequence gs'))) ∧
    (∀ (kept : Bool) (p p' : Parser), Regrouped kept p p' →
      (kept = true → ∀ o calls,
        course store tokens p i o calls ↔ course store tokens p' i o calls) ∧
      ∀ calls,
        (∀ k, (∃ tree, course store tokens p i (.matched tree k) calls) ↔
          ∃ tree, course store tokens p' i (.matched tree k) calls) ∧
        (course store tokens p i .failed calls ↔ course store tokens p' i .failed calls) ∧
        ∀ e, course store tokens p i (.raised e) calls ↔
          course store tokens p' i (.raised e) calls) ∧
    ∀ (kept : Bool) (p p' : Parser) (store' : Store), Regrouped kept p p' →
      store.Regrouped kept store' →
      (kept = false → p.RefusesNothing ∧ store.RefusesNothing) →
      (kept = true → ∀ o calls,
        course store tokens p i o calls ↔ course store' tokens p' i o calls) ∧
      ∀ calls,
        (∀ k, (∃ tree, course store tokens p i (.matched tree k) calls) ↔
          ∃ tree, course store' tokens p' i (.matched tree k) calls) ∧
        (course store tokens p i .failed calls ↔ course store' tokens p' i .failed calls) ∧
        ∀ e, course store tokens p i (.raised e) calls ↔
          course store' tokens p' i (.raised e) calls := by
  refine ⟨fun ps qs o calls => ?_, fun ps qs calls => ⟨fun tree k => ?_, ?_, fun e => ?_⟩,
    fun gs gs' h => ⟨?_, ?_⟩, fun kept p p' h => ?_, fun kept p p' store' h hstore hrefuses => ?_⟩
  · simp only [course_choice, courseAsChoice_append, courseAsChoice_cons, courseAsChoice_nil,
      Course.orElse_fail]
  · exact course_sequence_append_matched_iff
  · exact course_sequence_append_failed_iff
  · exact course_sequence_append_raised_iff
  · exact Grouping.regrouped_of_parsers_eq .choice h
  · exact Grouping.regrouped_of_parsers_eq .sequence h
  · exact h.agree.observed i
  · exact (h.agree_of_stores hstore hrefuses).observed i

theorem grouping_irrelevant_nested :
    let opening : Token := ⟨.leftParen, "(", .absent, none⟩
    let word : Token := ⟨.and, "AND", .absent, none⟩
    let tokens : Array Token := #[opening, word]
    let first : Parser := .probe "first" (.elem .leftParen)
    let second : Parser := .probe "second" (.elem .or)
    let third : Parser := .probe "third" (.elem .and)
    let p : Parser := .sequence [first, .choice [second, third]]
    let p' : Parser := .sequence
      [.sequence [], .sequence [first, .choice [.choice [], .choice [second, third]]]]
    let calls := [("first", 0), ("second", 1), ("third", 1)]
    Regrouped false p' p ∧
      course [] tokens p 0 (.matched (.list [.token opening, .token word]) 2) calls ∧
      (∃ tree, course [] tokens p' 0 (.matched tree 2) calls) ∧
      ∃ tree, course [⟨none, some p'⟩] tokens (.forward 0) 0 (.matched tree 2) calls := by
  intro opening word tokens first second third p p' calls
  obtain ⟨-, -, hgroups, hregrouped, -⟩ := grouping_irrelevant [] tokens 0
  have hchoice : Regrouped true (.choice [.choice [], .choice [second, third]])
      (.choice [second, third]) :=
    (hgroups [.group [], .group [.single second, .single third]]
      [.single second, .single third] rfl).1
  have hsequence (q : Parser) :
      Regrouped false (.sequence [.sequence [], .sequence [first, q]]) (.sequence [first, q]) :=
    (hgroups [.group [], .group [.single first, .single q]] [.single first, .single q] rfl).2
  have hgrouped : Regrouped false p' p :=
    (hsequence _).trans (.inSequence [first] [] (.ofKept hchoice))
  have hrun : course [] tokens p 0 (.matched (.list [.token opening, .token word]) 2) calls :=
    ⟨5, _, rfl, rfl, rfl⟩
  have hmatched := ((hregrouped false p' p hgrouped).2 calls).1 2
  have hstores : Store.Regrouped false [⟨none, some p⟩] [⟨none, some p'⟩] := by
    intro place
    cases place with
    | zero => exact .inl ⟨p, p', rfl, rfl, hgrouped.symm⟩
    | succ place => exact .inr ⟨"", rfl, rfl⟩
  have hrefuses : Store.RefusesNothing [⟨none, some p⟩] := by
    intro place body hbody
    cases place with
    | zero =>
      cases hbody
      simp [p, first, second, third, RefusesNothing, AllRefuseNothing]
    | succ place => cases hbody
  have hforward : course [⟨none, some p⟩] tokens (.forward 0) 0
      (.matched (.list [.token opening, .token word]) 2) calls := ⟨6, _, rfl, rfl, rfl⟩
  obtain ⟨-, -, -, -, hsupplied⟩ := grouping_irrelevant [⟨none, some p⟩] tokens 0
  have hbehind := (hsupplied false (.forward 0) (.forward 0) _ (.refl _) hstores
    fun _ => ⟨trivial, hrefuses⟩).2 calls
  exact ⟨hgrouped, hrun, hmatched.mpr ⟨_, hrun⟩, (hbehind.1 2).mp ⟨_, hforward⟩⟩

end Parser

end Conditions
