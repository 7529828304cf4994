import Conditions.Proofs.Spelling

/-!
# Tokens that are lexed back

A string token that is built from a text has the text for its lexeme, put between quotes as it is.
Lexing gives the token back just if the text has neither a quote nor a backslash. Otherwise the
literal is left open, or it stands for a shorter text: it ends at the first quote that closes it,
and an escape stands for one character where it takes up two.
-/

namespace Conditions

/-- Whether two lists of tokens are equal, element by element. -/
abbrev SameTokens (tokens tokens' : List Token) : Prop :=
  List.Forall₂ (fun t t' => t.same t' = true) tokens tokens'

/-- A token is faithful if its lexeme is lexed to that token and nothing else. -/
def Token.IsFaithful (t : Token) (filename : String) : Prop :=
  ∃ tokens, tokenize t.lexeme filename = .ok tokens ∧ SameTokens tokens [t]

/-- Nothing in the text has to be escaped between quotes. -/
def NeedsNoEscape (cs : List Char) : Prop :=
  quoteMark ∉ cs ∧ '\\' ∉ cs

/-! ## Bodies that are as long as what they stand for -/

section
variable {cs w meant rest : List Char}

theorem stringText_of_needsNoEscape (h : NeedsNoEscape w) : StringText w w := by
  induction w with
  | nil => exact .nil
  | cons c w ih =>
    obtain ⟨hquote, hescape⟩ := h
    rw [List.mem_cons, not_or] at hquote hescape
    exact .plain (Ne.symm hquote.1) (Ne.symm hescape.1) (ih ⟨hquote.2, hescape.2⟩)

theorem StringText.length_meant_le (h : StringText w meant) : meant.length ≤ w.length := by
  induction h with
  | nil => exact Nat.le_refl 0
  | plain _ _ _ ih => exact Nat.succ_le_succ ih
  | escape _ ih =>
    simp only [List.length_cons]
    omega

/-- A body in which something is escaped is longer than what it stands for. -/
theorem StringText.needsNoEscape (h : StringText w meant) (hlength : w.length ≤ meant.length) :
    NeedsNoEscape w := by
  induction h with
  | nil => exact ⟨List.not_mem_nil, List.not_mem_nil⟩
  | plain hquote hescape _ ih =>
    obtain ⟨hquote', hescape'⟩ := ih (Nat.le_of_succ_le_succ hlength)
    exact ⟨List.not_mem_cons_of_ne_of_not_mem (Ne.symm hquote) hquote',
      List.not_mem_cons_of_ne_of_not_mem (Ne.symm hescape) hescape'⟩
  | escape hw _ =>
    have hle := hw.length_meant_le
    simp only [List.length_cons] at hlength
    omega

/-- What the literal stands for, that begins with a text and a quote behind it, is shorter than the
text if something in the text has to be escaped. The quote that ends the literal is the last one, or
else it stands in the text. -/
theorem StringText.length_meant_lt (h : StringText w meant)
    (hcs : cs ++ [quoteMark] = w ++ quoteMark :: rest) (hescape : ¬ NeedsNoEscape cs) :
    meant.length < cs.length := by
  have hlength : cs.length = w.length + rest.length := by
    have := congrArg List.length hcs
    simp only [List.length_append, List.length_cons, List.length_nil] at this
    omega
  have hle := h.length_meant_le
  refine Nat.lt_of_not_le fun hge => hescape ?_
  have hrest : rest = [] := List.eq_nil_of_length_eq_zero (by omega)
  subst hrest
  rw [List.append_cancel_right_eq] at hcs
  subst hcs
  exact h.needsNoEscape hge

end

/-! ## Lexing the lexeme of a text -/

section
variable {s : String} (filename : String)

theorem Token.toList_lexeme_ofText (s : String) :
    (ofText s).lexeme.toList = quoteMark :: (s.toList ++ [quoteMark]) := by
  simp [ofText, quoteMark]

/-- Where the literal is closed, its token comes first. -/
theorem lex_ofText_closed {w meant rest : List Char} (hw : StringText w meant)
    (hs : s.toList ++ [quoteMark] = w ++ quoteMark :: rest) :
    lex (Token.ofText s).lexeme filename =
      let t : Token := ⟨.string, String.ofList (quoteMark :: w ++ [quoteMark]),
        .text (String.ofList meant), some (Position.start.locate filename)⟩
      let others := Lexing.ofPieces filename (Position.start.after (quoteMark :: w ++ [quoteMark]))
        (pieces rest)
      { others with tokens := t :: others.tokens } := by
  have hpieces : pieces ((quoteMark :: w ++ [quoteMark]) ++ rest) = _ :: pieces rest :=
    pieces_of_fits (.string hw)
  rw [lex, Token.toList_lexeme_ofText, hs]
  simp only [List.cons_append, List.append_assoc, List.nil_append] at hpieces ⊢
  rw [hpieces]
  rfl

theorem tokenize_ofText_unclosed (hs : Unclosed (s.toList ++ [quoteMark])) :
    tokenize (Token.ofText s).lexeme filename =
      .error (.lexical ⟨.unterminatedString, Position.start.locate filename⟩) := by
  have hpieces : pieces (quoteMark :: (s.toList ++ [quoteMark]) ++ []) = _ :: pieces [] :=
    pieces_of_fits (.unclosed hs)
  rw [List.append_nil, pieces] at hpieces
  rw [tokenize, lex, Token.toList_lexeme_ofText, hpieces]
  rfl

theorem tokenize_ofText (hs : NeedsNoEscape s.toList) :
    tokenize (Token.ofText s).lexeme filename =
      .ok [{ Token.ofText s with location := some (Position.start.locate filename) }] := by
  have hlexeme :
      String.ofList (quoteMark :: s.toList ++ [quoteMark]) = (Token.ofText s).lexeme := by
    rw [← String.toList_inj, String.toList_ofList, Token.toList_lexeme_ofText]
    rfl
  rw [tokenize, lex_ofText_closed filename (stringText_of_needsNoEscape hs) rfl, hlexeme,
    String.ofList_toList, pieces]
  rfl

theorem Token.same_ofText_iff {t : Token} :
    t.same (ofText s) = true ↔ t.kind = .string ∧ t.payload = .text s := by
  obtain ⟨kind, lexeme, payload, location⟩ := t
  cases payload <;> simp [ofText, Token.same, Tree.same, Tree.value?]

/-- Where something has to be escaped, lexing fails, or there are other tokens, of which the first
is a shorter text. -/
theorem tokenize_ofText_escape (hs : ¬ NeedsNoEscape s.toList) :
    (∃ e, tokenize (Token.ofText s).lexeme filename = .error e) ∨
    ∃ first others short, tokenize (Token.ofText s).lexeme filename = .ok (first :: others) ∧
      ¬ SameTokens (first :: others) [Token.ofText s] ∧
      first.payload = .text short ∧ short.length < s.length := by
  cases hread : StringBody.read? (s.toList ++ [quoteMark]) with
  | none =>
    have hunclosed := StringBody.read?_eq_none_iff.mp hread
    exact .inl ⟨_, tokenize_ofText_unclosed filename hunclosed⟩
  | some b =>
    have hw := StringBody.stringText_of_read? hread
    have hsplit := (StringBody.written_append_of_read? hread).symm
    have hshort : (String.ofList b.meant).length < s.length := by
      rw [String.length_ofList, ← String.length_toList]
      exact hw.length_meant_lt hsplit hs
    cases htokenize : tokenize (Token.ofText s).lexeme filename with
    | error e => exact .inl ⟨e, rfl⟩
    | ok tokens =>
      have htokens := tokens_of_tokenize htokenize
      rw [lex_ofText_closed filename hw hsplit] at htokens
      subst htokens
      refine .inr ⟨_, _, _, rfl, fun hsame => ?_, rfl, hshort⟩
      have hfirst := (Token.same_ofText_iff.mp (List.forall₂_cons.mp hsame).1).2
      rw [Tree.text.injEq] at hfirst
      exact absurd (hfirst ▸ hshort) (Nat.lt_irrefl _)

theorem Token.IsFaithful.needsNoEscape (h : (ofText s).IsFaithful filename) :
    NeedsNoEscape s.toList := by
  obtain ⟨tokens, hok, hsame⟩ := h
  by_contra hs
  rcases tokenize_ofText_escape filename hs with
    ⟨e, herror⟩ | ⟨first, others, short, hok', hdiffer, -⟩
  · rw [hok] at herror
    cases herror
  · rw [hok, Except.ok.injEq] at hok'
    exact hdiffer (hok' ▸ hsame)

end

/-- A string token that is built from a text is faithful just if the text has neither a quote nor a
backslash. Its lexeme is then lexed to the token itself, at the start of the source. For every other
text lexing fails, or there are other tokens, of which the first is a shorter text. -/
theorem ofText_isFaithful_iff (s filename : String) :
    ((Token.ofText s).IsFaithful filename ↔ quoteMark ∉ s.toList ∧ '\\' ∉ s.toList) ∧
    ((Token.ofText s).IsFaithful filename ↔ tokenize (Token.ofText s).lexeme filename =
      .ok [{ Token.ofText s with location := some (Position.start.locate filename) }]) ∧
    (quoteMark ∈ s.toList ∨ '\\' ∈ s.toList →
      (∃ e, tokenize (Token.ofText s).lexeme filename = .error e) ∨
      ∃ first others short, tokenize (Token.ofText s).lexeme filename = .ok (first :: others) ∧
        ¬ SameTokens (first :: others) [Token.ofText s] ∧
        first.payload = .text short ∧ short.length < s.length) := by
  have hplain (h : (Token.ofText s).IsFaithful filename) : NeedsNoEscape s.toList :=
    h.needsNoEscape filename
  have hself (hs : NeedsNoEscape s.toList) := tokenize_ofText filename hs
  have hfaithful (h : tokenize (Token.ofText s).lexeme filename =
      .ok [{ Token.ofText s with location := some (Position.start.locate filename) }]) :
      (Token.ofText s).IsFaithful filename :=
    ⟨_, h, .cons (Token.same_ofText_iff.mpr ⟨rfl, rfl⟩) .nil⟩
  refine ⟨⟨hplain, fun hs => hfaithful (hself hs)⟩, ⟨fun h => hself (hplain h), hfaithful⟩,
    fun hs => tokenize_ofText_escape filename fun hnone => ?_⟩
  exact hs.elim hnone.1 hnone.2

end Conditions
