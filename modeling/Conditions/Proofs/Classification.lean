import Conditions.Proofs.Acceptance

/-!
# How an input is refused

Reading decides between a sentence, a sentence with tokens behind it, and no sentence at all from
one run of a production. At most one of the prefixes of an input is a sentence, so the run tells
which case there is; the parse error of a refusal says what is wrong, and where. There is no such
error if the token at fault cannot be shown. A reader keeps the parse errors of its readings, which
do not influence each other.
-/

namespace Conditions

/-- The tokens are a complete sentence of what an input is read as. -/
def Goal.IsSentence (goal : Goal) (w : List Token) : Prop :=
  ∃ tree, Derives goal.production w tree

/-! ## Prefixes -/

section
variable {production : Production} {tokens : List Token} {tree : Tree} {k : Nat}

theorem derivesAt_take_iff :
    DerivesAt production tokens.toArray 0 k tree ↔
      k ≤ tokens.length ∧ Derives production (tokens.take k) tree := by
  have hslice : slice tokens.toArray 0 k = tokens.take k := by
    simp [slice, List.extract_eq_take_drop]
  simp [DerivesAt, hslice]

theorem outcome?_eq_matched_take_iff :
    production.outcome? tokens.toArray 0 = some (.matched tree k) ↔
      k ≤ tokens.length ∧ Derives production (tokens.take k) tree := by
  rw [Production.outcome?_eq_matched_iff, derivesAt_take_iff]

/-- No two prefixes of an input are sentences. -/
theorem Goal.IsSentence.take_unique {goal : Goal} {j k : Nat} (hj : j ≤ tokens.length)
    (hk : k ≤ tokens.length) (h : goal.IsSentence (tokens.take j))
    (h' : goal.IsSentence (tokens.take k)) : j = k := by
  obtain ⟨s, hs⟩ := h
  obtain ⟨t, ht⟩ := h'
  have hmatched := outcome?_eq_matched_take_iff.2 ⟨hj, hs⟩
  rw [outcome?_eq_matched_take_iff.2 ⟨hk, ht⟩] at hmatched
  simp only [Option.some.injEq, Outcome.matched.injEq] at hmatched
  omega

end

/-! ## One reading -/

section
variable {goal : Goal} {tokens : List Token}

theorem read_of_sentence_take {k : Nat} {extra : Token} (hextra : tokens[k]? = some extra)
    (h : goal.IsSentence (tokens.take k)) :
    read goal tokens.toArray = .error (.ofParse (ParseError.trailing goal.title extra k)) := by
  obtain ⟨tree, htree⟩ := h
  have hk : k < tokens.length := (List.getElem?_eq_some_iff.1 hextra).1
  have houtcome := outcome?_eq_matched_take_iff.2 ⟨Nat.le_of_lt hk, htree⟩
  have htoken : tokenAt? tokens.toArray (k : Int) = some extra := by
    simpa [tokenAt?] using hextra
  simp only [read, houtcome, htoken]

theorem read_of_no_sentence (h : ∀ k ≤ tokens.length, ¬ goal.IsSentence (tokens.take k)) :
    read goal tokens.toArray = .error (.ofParse (ParseError.noMatch goal.title tokens.head?)) := by
  have hfailed : goal.production.outcome? tokens.toArray 0 = some .failed := by
    apply Production.outcome?_eq_failed
    intro tree j hD
    obtain ⟨k, rfl⟩ := Int.eq_ofNat_of_zero_le hD.2.1
    obtain ⟨hk, htree⟩ := derivesAt_take_iff.1 hD
    exact h k hk ⟨tree, htree⟩
  simp [read, hfailed, List.head?_eq_getElem?]

/-- A sentence is read to the node of its tree, or the builder refuses the tree. -/
theorem read_of_sentence {tree : Tree} (h : Derives goal.production tokens tree) :
    read goal tokens.toArray = (goal.build tree).mapError .build :=
  read_of_derives h

end

/-- What a reading comes to. -/
theorem read_cases (goal : Goal) (tokens : List Token) :
    (∃ k extra, tokens[k]? = some extra ∧ goal.IsSentence (tokens.take k) ∧
      read goal tokens.toArray = .error (.ofParse (ParseError.trailing goal.title extra k))) ∨
    ((∀ k ≤ tokens.length, ¬ goal.IsSentence (tokens.take k)) ∧
      read goal tokens.toArray = .error (.ofParse (ParseError.noMatch goal.title tokens.head?))) ∨
    (goal.IsSentence tokens ∧
      ∃ result, read goal tokens.toArray = Except.mapError .build result) := by
  by_cases hsome : ∃ k ≤ tokens.length, goal.IsSentence (tokens.take k)
  · obtain ⟨k, hk, hsentence⟩ := hsome
    by_cases hlt : k < tokens.length
    · have hextra : tokens[k]? = some tokens[k] := List.getElem?_eq_getElem hlt
      exact Or.inl ⟨k, _, hextra, hsentence, read_of_sentence_take hextra hsentence⟩
    · rw [List.take_of_length_le (by omega)] at hsentence
      obtain ⟨tree, htree⟩ := hsentence
      exact Or.inr (Or.inr ⟨⟨tree, htree⟩, goal.build tree, read_of_sentence htree⟩)
  · have hnone : ∀ k ≤ tokens.length, ¬ goal.IsSentence (tokens.take k) :=
      fun k hk h => hsome ⟨k, hk, h⟩
    exact Or.inr (Or.inl ⟨hnone, read_of_no_sentence hnone⟩)

/-! ### The ways in which a reading may end -/

section
variable {result : Except BuildError Node} {made : Except UnwritableNumber ParseError}

theorem mapError_build_eq_ok_iff {node : Node} :
    result.mapError ReadError.build = .ok node ↔ result = .ok node := by
  cases result <;> simp [Except.mapError]

theorem mapError_build_ne {e : ReadError} (h : ∀ e', e ≠ .build e') :
    result.mapError ReadError.build ≠ .error e := by
  cases result with
  | ok node => nofun
  | error e' =>
    intro heq
    cases heq
    exact h e' rfl

theorem ReadError.ofParse_eq_parse_iff {e : ParseError} : ofParse made = .parse e ↔ made = .ok e := by
  cases made <;> simp [ofParse]

theorem ReadError.exists_ofParse_eq_unwritable_iff :
    (∃ e, ofParse made = .unwritable e) ↔ ¬ ∃ e, made = .ok e := by
  cases made with
  | ok e => simp [ofParse]
  | error e => simpa [ofParse] using ⟨e⟩

theorem ReadError.ofParse_ne_raised (e : RunError) : ofParse made ≠ .raised e := by
  cases made <;> nofun

theorem ReadError.ofParse_ne_unfinished : ofParse made ≠ .unfinished := by
  cases made <;> nofun

end

/-- A production does not end with an error, nor does it exceed the budget of the grammar. -/
theorem read_ne_raised_and_ne_unfinished (goal : Goal) (tokens : List Token) :
    (∀ e, read goal tokens.toArray ≠ .error (.raised e)) ∧
      read goal tokens.toArray ≠ .error .unfinished := by
  have hrefused (made : Except UnwritableNumber ParseError) :
      (∀ e, (.error (.ofParse made) : Except ReadError Node) ≠ .error (.raised e)) ∧
        (.error (.ofParse made) : Except ReadError Node) ≠ .error .unfinished :=
    ⟨fun e h => ReadError.ofParse_ne_raised e (Except.error.inj h),
      fun h => ReadError.ofParse_ne_unfinished (Except.error.inj h)⟩
  rcases read_cases goal tokens with ⟨k, extra, -, -, hread⟩ | ⟨-, hread⟩ | ⟨-, result, hread⟩
  · rw [hread]
    exact hrefused _
  · rw [hread]
    exact hrefused _
  · rw [hread]
    exact ⟨fun e => mapError_build_ne nofun, mapError_build_ne nofun⟩

/-! ## What parse errors say -/

namespace ParseError

/-- The error says that a sentence ends before the token at `k`: it carries that token with its
place, and its hint names the index. -/
structure ReportsTrailing (e : ParseError) (goal : Goal) (tokens : List Token) (k : Nat) :
    Prop where
  code : e.diagnostic.code = some "P002"
  token : e.token? = tokens[k]?
  location : e.diagnostic.location = tokens[k]?.bind Token.location
  help : e.diagnostic.help = some
    s!"A complete {goal.title} ends before token {k}; the rest of the input was not consumed."

/-- The error says that there is no sentence: it carries the first token with its place, and neither
if there are no tokens. -/
structure ReportsNoMatch (e : ParseError) (tokens : List Token) : Prop where
  code : e.diagnostic.code = some "P001"
  token : e.token? = tokens.head?
  location : e.diagnostic.location = tokens.head?.bind Token.location

theorem reportsTrailing {goal : Goal} {tokens : List Token} {k : Nat} {extra : Token}
    {e : ParseError} (he : trailing goal.title extra k = .ok e) (h : tokens[k]? = some extra) :
    e.ReportsTrailing goal tokens k := by
  obtain ⟨shown, -, heq⟩ := bind_eq_ok_iff.1 he
  cases heq
  exact ⟨rfl, h.symm, by rw [h]; rfl, rfl⟩

theorem reportsNoMatch {goal : Goal} {tokens : List Token} {e : ParseError}
    (he : noMatch goal.title tokens.head? = .ok e) : e.ReportsNoMatch tokens := by
  cases hfirst : tokens.head? with
  | none =>
    rw [hfirst] at he
    cases he
    exact ⟨rfl, by rw [hfirst], by rw [hfirst]; rfl⟩
  | some first =>
    rw [hfirst] at he
    obtain ⟨shown, -, heq⟩ := bind_eq_ok_iff.1 he
    cases heq
    exact ⟨rfl, by rw [hfirst], by rw [hfirst]; rfl⟩

/-- The hint tells at which index the sentence ends. -/
theorem index_eq_of_reportsTrailing {goal : Goal} {tokens : List Token} {j k : Nat} {e : ParseError}
    (h : e.ReportsTrailing goal tokens j) (h' : e.ReportsTrailing goal tokens k) : j = k := by
  have heq := Option.some.inj (h.help.symm.trans h'.help)
  have hdigits : decimalDigits j = decimalDigits k := by
    simpa [← String.toList_inj, decimalDigits] using heq
  rw [← digitsValue_decimalDigits j, hdigits, digitsValue_decimalDigits]

end ParseError

/-! ## Readings one after the other -/

/-- The parse error that a reading ended with. -/
def parseError? : Except ReadError Node → Option ParseError
  | .error (.parse e) => some e
  | _ => none

theorem parseError?_eq_none {result : Except ReadError Node}
    (h : ∀ e, result ≠ .error (.parse e)) : parseError? result = none := by
  unfold parseError?
  split
  · next e => exact absurd rfl (h e)
  · rfl

namespace Reader

/-- Reads the tokens as one goal after the other. -/
def readAll (r : Reader) : List Goal → Reader × List (Except ReadError Node)
  | [] => (r, [])
  | goal :: goals =>
    let first := r.read goal
    let others := readAll first.1 goals
    (others.1, first.2 :: others.2)

/-- A reading keeps its parse error, and changes nothing else. -/
theorem read_eq (r : Reader) (goal : Goal) :
    r.read goal =
      ({ r with errors := r.errors ++ (parseError? (Conditions.read goal r.tokens)).toList },
        Conditions.read goal r.tokens) := by
  unfold read
  split
  · next e h => simp [h, parseError?]
  · next hnot => simp [parseError?_eq_none hnot]

/-- Readings are independent, and their parse errors are kept in order. -/
theorem readAll_eq (r : Reader) (goals : List Goal) :
    r.readAll goals =
      ({ r with
          errors := r.errors ++
            (goals.map fun goal => Conditions.read goal r.tokens).filterMap parseError? },
        goals.map fun goal => Conditions.read goal r.tokens) := by
  induction goals generalizing r with
  | nil => simp [readAll]
  | cons goal goals ih =>
    simp only [readAll, read_eq, ih, List.map_cons, filterMap_cons_toList, List.append_assoc]

end Reader

/-! ## The three cases -/

/-- The token that a refusal is about: the one behind a sentence, or the first one if no prefix is a
sentence. -/
inductive Goal.Blames (goal : Goal) (tokens : List Token) : Token → Prop where
  | behind {k : Nat} {t : Token} : tokens[k]? = some t → goal.IsSentence (tokens.take k) →
      Blames goal tokens t
  | first {t : Token} : (∀ k ≤ tokens.length, ¬ goal.IsSentence (tokens.take k)) →
      tokens.head? = some t → Blames goal tokens t

section
variable {goal : Goal} {tokens : List Token}

/-- A parse error is about the token behind a sentence, or there is no sentence. -/
theorem read_parse_cases {e : ParseError} (h : read goal tokens.toArray = .error (.parse e)) :
    (∃ k extra, tokens[k]? = some extra ∧ goal.IsSentence (tokens.take k) ∧
      ParseError.trailing goal.title extra k = .ok e) ∨
    ((∀ k ≤ tokens.length, ¬ goal.IsSentence (tokens.take k)) ∧
      ParseError.noMatch goal.title tokens.head? = .ok e) := by
  rcases read_cases goal tokens with
    ⟨k, extra, hextra, hsentence, hread⟩ | ⟨hnone, hread⟩ | ⟨-, result, hread⟩
  · rw [hread, Except.error.injEq, ReadError.ofParse_eq_parse_iff] at h
    exact .inl ⟨k, extra, hextra, hsentence, h⟩
  · rw [hread, Except.error.injEq, ReadError.ofParse_eq_parse_iff] at h
    exact .inr ⟨hnone, h⟩
  · rw [hread] at h
    exact absurd h (mapError_build_ne nofun)

theorem read_reportsTrailing_iff {k : Nat} :
    (∃ e, read goal tokens.toArray = .error (.parse e) ∧ e.ReportsTrailing goal tokens k) ↔
      k < tokens.length ∧ goal.IsSentence (tokens.take k) ∧
        ∀ t, tokens[k]? = some t → t.Showable := by
  apply Iff.intro
  · rintro ⟨e, he, hreports⟩
    rcases read_parse_cases he with ⟨j, extra, hextra, hsentence, he⟩ | ⟨-, he⟩
    · obtain rfl := ParseError.index_eq_of_reportsTrailing (ParseError.reportsTrailing he hextra)
        hreports
      refine ⟨(List.getElem?_eq_some_iff.1 hextra).1, hsentence, fun t ht => ?_⟩
      rw [hextra, Option.some.injEq] at ht
      exact ht ▸ ParseError.exists_trailing_iff.1 ⟨e, he⟩
    · have hcodes := hreports.code.symm.trans (ParseError.reportsNoMatch he).code
      exact absurd hcodes (by decide)
  · rintro ⟨hk, hsentence, hshowable⟩
    have hextra : tokens[k]? = some tokens[k] := List.getElem?_eq_getElem hk
    obtain ⟨e, he⟩ : ∃ e, ParseError.trailing goal.title tokens[k] k = .ok e :=
      ParseError.exists_trailing_iff.2 (hshowable _ hextra)
    exact ⟨e, by rw [read_of_sentence_take hextra hsentence, he]; rfl,
      ParseError.reportsTrailing he hextra⟩

theorem read_reportsNoMatch_iff :
    (∃ e, read goal tokens.toArray = .error (.parse e) ∧ e.ReportsNoMatch tokens) ↔
      (∀ k ≤ tokens.length, ¬ goal.IsSentence (tokens.take k)) ∧
        ∀ t, tokens.head? = some t → t.Showable := by
  apply Iff.intro
  · rintro ⟨e, he, hreports⟩
    rcases read_parse_cases he with ⟨j, extra, hextra, -, he⟩ | ⟨hnone, he⟩
    · have hcodes := hreports.code.symm.trans (ParseError.reportsTrailing he hextra).code
      exact absurd hcodes (by decide)
    · exact ⟨hnone, ParseError.exists_noMatch_iff.1 ⟨e, he⟩⟩
  · rintro ⟨hnone, hshowable⟩
    obtain ⟨e, he⟩ : ∃ e, ParseError.noMatch goal.title tokens.head? = .ok e :=
      ParseError.exists_noMatch_iff.2 hshowable
    exact ⟨e, by rw [read_of_no_sentence hnone, he]; rfl, ParseError.reportsNoMatch he⟩

/-- There is no parse error where the token at fault cannot be shown. -/
theorem read_unwritable_iff :
    (∃ e, read goal tokens.toArray = .error (.unwritable e)) ↔
      ∃ t, goal.Blames tokens t ∧ ¬ t.Showable := by
  apply Iff.intro
  · rintro ⟨e, he⟩
    rcases read_cases goal tokens with
      ⟨j, extra, hextra, hsentence, hread⟩ | ⟨hnone, hread⟩ | ⟨-, result, hread⟩
    · rw [hread, Except.error.injEq] at he
      refine ⟨extra, .behind hextra hsentence, ?_⟩
      rw [← ParseError.exists_trailing_iff]
      exact ReadError.exists_ofParse_eq_unwritable_iff.1 ⟨e, he⟩
    · rw [hread, Except.error.injEq] at he
      have hnoError := ReadError.exists_ofParse_eq_unwritable_iff.1 ⟨e, he⟩
      rw [ParseError.exists_noMatch_iff] at hnoError
      simp only [not_forall] at hnoError
      obtain ⟨t, ht, hshowable⟩ := hnoError
      exact ⟨t, .first hnone ht, hshowable⟩
    · rw [hread] at he
      exact absurd he (mapError_build_ne nofun)
  · rintro ⟨t, hblames, hshowable⟩
    cases hblames with
    | behind ht hsentence =>
      rw [read_of_sentence_take ht hsentence]
      simp only [Except.error.injEq, ReadError.exists_ofParse_eq_unwritable_iff,
        ParseError.exists_trailing_iff]
      exact hshowable
    | first hnone ht =>
      rw [read_of_no_sentence hnone]
      simp only [Except.error.injEq, ReadError.exists_ofParse_eq_unwritable_iff,
        ParseError.exists_noMatch_iff]
      exact fun h => hshowable (h t ht)

theorem read_ne_parse_and_ne_unwritable_iff :
    ((∀ e, read goal tokens.toArray ≠ .error (.parse e)) ∧
        ∀ e, read goal tokens.toArray ≠ .error (.unwritable e)) ↔
      goal.IsSentence tokens := by
  apply Iff.intro
  · rintro ⟨hparse, hunwritable⟩
    have hrefused (made : Except UnwritableNumber ParseError)
        (hread : read goal tokens.toArray = .error (.ofParse made)) : False := by
      cases made with
      | ok e => exact hparse e hread
      | error e => exact hunwritable e hread
    rcases read_cases goal tokens with ⟨j, extra, -, -, hread⟩ | ⟨-, hread⟩ | ⟨hsentence, -⟩
    · exact (hrefused _ hread).elim
    · exact (hrefused _ hread).elim
    · exact hsentence
  · rintro ⟨tree, htree⟩
    rw [read_of_sentence htree]
    exact ⟨fun e => mapError_build_ne nofun, fun e => mapError_build_ne nofun⟩

end

/-- Reading tells the three cases apart, whatever was read before. At most one prefix of the tokens
is a sentence. If it is a proper one, and only then, the error reports the token behind it with its
place and its index; if there is none, and only then, the error reports the first token with its
place, if there is one; otherwise all the tokens are a sentence, and what is read is the node of its
tree. There is one way out of this: the value of the token that would be reported may have a number
that cannot be written; then, and only then, the reading ends without a parse error. Tokens that
have been lexed have no such value. Each parse error is kept, and nothing else is, so a reader has
the parse errors of all its readings in their order. -/
theorem Reader.read_classifies (tokens : List Token) (history : List Goal) (goal : Goal) :
    let past := (ofTokens tokens).readAll history
    let present := past.1.read goal
    (∀ k, (∃ e, present.2 = .error (.parse e) ∧ e.ReportsTrailing goal tokens k) ↔
      k < tokens.length ∧ goal.IsSentence (tokens.take k) ∧
        ∀ t, tokens[k]? = some t → t.Showable) ∧
    (∀ j k, j ≤ tokens.length → k ≤ tokens.length → goal.IsSentence (tokens.take j) →
      goal.IsSentence (tokens.take k) → j = k) ∧
    ((∃ e, present.2 = .error (.parse e) ∧ e.ReportsNoMatch tokens) ↔
      (∀ k ≤ tokens.length, ¬ goal.IsSentence (tokens.take k)) ∧
        ∀ t, tokens.head? = some t → t.Showable) ∧
    ((∃ e, present.2 = .error (.unwritable e)) ↔ ∃ t, goal.Blames tokens t ∧ ¬ t.Showable) ∧
    (((∀ e, present.2 ≠ .error (.parse e)) ∧ ∀ e, present.2 ≠ .error (.unwritable e)) ↔
      goal.IsSentence tokens) ∧
    (∀ tree, Derives goal.production tokens tree →
      present.2 = (goal.build tree).mapError .build) ∧
    ((∀ e, present.2 ≠ .error (.raised e)) ∧ present.2 ≠ .error .unfinished) ∧
    (∀ source filename, tokenize source filename = .ok tokens → ∀ t ∈ tokens, t.Showable) ∧
    (∀ e, present.2 = .error (.parse e) → present.1.errors = past.1.errors ++ [e]) ∧
    ((∀ e, present.2 ≠ .error (.parse e)) → present.1.errors = past.1.errors) ∧
    past.2 = history.map (fun earlier => ((ofTokens tokens).read earlier).2) ∧
    past.1.errors = past.2.filterMap parseError? := by
  intro past present
  have hpast := readAll_eq (ofTokens tokens) history
  have hpresent : present = _ := read_eq past.1 goal
  have htokens : past.1.tokens = tokens.toArray := by
    show ((ofTokens tokens).readAll history).1.tokens = tokens.toArray
    rw [hpast]
    rfl
  rw [htokens] at hpresent
  have hresult : present.2 = Conditions.read goal tokens.toArray := by rw [hpresent]
  have herrors : present.1.errors = past.1.errors ++ (parseError? present.2).toList := by
    rw [hpresent]
  rw [hresult] at herrors ⊢
  refine ⟨fun k => read_reportsTrailing_iff, fun j k hj hk h h' => h.take_unique hj hk h',
    read_reportsNoMatch_iff, read_unwritable_iff, read_ne_parse_and_ne_unwritable_iff,
    fun tree htree => read_of_sentence htree, read_ne_raised_and_ne_unfinished goal tokens,
    fun source filename h t ht => (lexed_of_tokenize h t ht).showable,
    fun e he => ?_, fun hnone => ?_, ?_, ?_⟩
  · rw [herrors, he]
    rfl
  · rw [herrors, parseError?_eq_none hnone]
    exact List.append_nil _
  · show ((ofTokens tokens).readAll history).2 = _
    rw [hpast]
    simp only [read_snd]
  · show ((ofTokens tokens).readAll history).1.errors =
      ((ofTokens tokens).readAll history).2.filterMap parseError?
    rw [hpast]
    exact List.nil_append _

/-- A number token is no condition; but if the number is too large, no parse error says so. -/
theorem Reader.read_of_not_withinDigitLimit {n : Int} (hn : ¬ WithinDigitLimit n)
    {tokens : List Token} (htokens : tokens = [⟨.number, "x", .number (.integer n), none⟩]) :
    (∀ k ≤ tokens.length, ¬ Goal.condition.IsSentence (tokens.take k)) ∧
      (∀ e, ((ofTokens tokens).read .condition).2 ≠ .error (.parse e)) ∧
      ((ofTokens tokens).read .condition).1.errors = [] := by
  subst htokens
  have hnone : ∀ k ≤ 1, ¬ Goal.condition.IsSentence
      ([⟨.number, "x", .number (.integer n), none⟩].take k) := by
    rintro k hk ⟨tree, htree⟩
    have hmatched := outcome?_eq_matched_take_iff.2 ⟨hk, htree⟩
    cases hmatched
  obtain ⟨e, he⟩ : ∃ e, Conditions.read .condition
      (ofTokens [⟨.number, "x", .number (.integer n), none⟩]).tokens = .error (.unwritable e) := by
    refine read_unwritable_iff.2 ⟨_, .first hnone rfl, fun hshowable => hn ?_⟩
    have hwhole := (Token.showable_iff_of_number (x := .integer n) rfl).1 hshowable
    exact hwhole n (List.mem_singleton_self n)
  rw [read_eq, he]
  exact ⟨hnone, nofun, rfl⟩

theorem Reader.read_powerOfTen :
    let tokens : List Token :=
      [⟨.number, "x", .number (.integer (Nat.pow 10 digitLimit)), none⟩]
    (∀ k ≤ tokens.length, ¬ Goal.condition.IsSentence (tokens.take k)) ∧
      (∀ e, ((ofTokens tokens).read .condition).2 ≠ .error (.parse e)) ∧
      ((ofTokens tokens).read .condition).1.errors = [] := by
  intro tokens
  exact read_of_not_withinDigitLimit not_withinDigitLimit_pow rfl

end Conditions
