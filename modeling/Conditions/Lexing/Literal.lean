import Conditions.Lexing.Fault
import Conditions.Tree.Basic

/-!
# Literals

How number and string literals are read from the front of a text, and what they stand for.
-/

namespace Conditions

/-- The parts of a number literal. -/
structure Numeral where
  negative : Bool
  /-- The digits before the point. -/
  whole : List Char
  /-- The digits behind the point, if there is one. -/
  fraction? : Option (List Char)
  deriving DecidableEq, Repr

namespace Numeral

/-- A literal as it was written. -/
def written (n : Numeral) : List Char :=
  (if n.negative then ['-'] else []) ++ n.whole ++
    match n.fraction? with
    | none => []
    | some digits => '.' :: digits

/-- Reads the digits of a literal and what may follow them, as far as they go. -/
def readDigits? (negative : Bool) (cs : List Char) : Option (Numeral × List Char) :=
  match cs.takeWhile Char.isDigit with
  | [] => none
  | whole =>
    match cs.dropWhile Char.isDigit with
    | '.' :: rest =>
      some (⟨negative, whole, some (rest.takeWhile Char.isDigit)⟩, rest.dropWhile Char.isDigit)
    | rest => some (⟨negative, whole, none⟩, rest)

/-- Reads a number literal from the front of a text, together with the text behind it. -/
def read? : List Char → Option (Numeral × List Char)
  | '-' :: cs => readDigits? true cs
  | cs => readDigits? false cs

/-- Reading the digits of a literal splits the text. -/
theorem written_append_of_readDigits? {negative : Bool} {cs rest : List Char} {n : Numeral}
    (h : readDigits? negative cs = some (n, rest)) :
    n.negative = negative ∧ n.whole ++ (n.fraction?.elim [] ('.' :: ·)) ++ rest = cs := by
  unfold readDigits? at h
  have split := List.takeWhile_append_dropWhile (p := Char.isDigit) (l := cs)
  split at h
  · simp at h
  · split at h
    · next tail hdrop =>
      simp only [Option.some.injEq, Prod.mk.injEq] at h
      obtain ⟨rfl, rfl⟩ := h
      simp only [Option.elim_some, List.append_assoc, List.cons_append,
        List.takeWhile_append_dropWhile, true_and]
      rw [← hdrop, split]
    · simp only [Option.some.injEq, Prod.mk.injEq] at h
      obtain ⟨rfl, rfl⟩ := h
      simp [split]

/-- Reading a number literal splits the text. -/
theorem written_append_of_read? {cs rest : List Char} {n : Numeral}
    (h : read? cs = some (n, rest)) : n.written ++ rest = cs := by
  have key : ∀ n : Numeral, n.written =
      (if n.negative then ['-'] else []) ++ n.whole ++ n.fraction?.elim [] ('.' :: ·) := by
    intro n
    cases hf : n.fraction? <;> simp [written, hf]
  unfold read? at h
  split at h
  · obtain ⟨hn, hsplit⟩ := written_append_of_readDigits? h
    rw [key]
    simp [hn, ← hsplit]
  · obtain ⟨hn, hsplit⟩ := written_append_of_readDigits? h
    rw [key]
    simp [hn, ← hsplit]

end Numeral

/-- The quote around string literals. -/
def quoteMark : Char := '\x22'

/-- The character that a backslash and the character `c` stand for. -/
def unescape : Char → Char
  | 'n' => '\n'
  | 't' => '\t'
  | c => c

/-- The body of a string literal, and the text behind its closing quote. -/
structure StringBody where
  /-- The body as it was written. -/
  written : List Char
  /-- The text it stands for. -/
  meant : List Char
  rest : List Char
  deriving DecidableEq, Repr

/-- Puts a piece of text in front of a body. -/
def StringBody.extend (written : List Char) (meant : Char) (b : StringBody) : StringBody :=
  ⟨written ++ b.written, meant :: b.meant, b.rest⟩

/-- Reads the body of a string literal up to the quote that closes it. A backslash and the
character behind it belong together, so a quote behind a backslash does not close the literal. -/
def StringBody.read? : List Char → Option StringBody
  | [] => none
  | '\x22' :: cs => some ⟨[], [], cs⟩
  | '\\' :: c :: cs => (StringBody.read? cs).map (extend ['\\', c] (unescape c))
  | c :: cs => (StringBody.read? cs).map (extend [c] c)

/-- Reading the body of a string literal splits the text at the closing quote. -/
theorem StringBody.written_append_of_read? {cs : List Char} {b : StringBody}
    (h : StringBody.read? cs = some b) : b.written ++ quoteMark :: b.rest = cs := by
  induction cs using StringBody.read?.induct generalizing b with
  | case1 => simp [StringBody.read?] at h
  | case2 cs =>
    simp only [StringBody.read?, Option.some.injEq] at h
    subst h
    rfl
  | case3 c cs ih =>
    simp only [StringBody.read?, Option.map_eq_some_iff] at h
    obtain ⟨b, hb, rfl⟩ := h
    simp [extend, ih hb]
  | case4 c cs hquote hescape ih =>
    rw [StringBody.read?] at h
    · obtain ⟨b, hb, rfl⟩ := Option.map_eq_some_iff.1 h
      simp [extend, ih hb]
    · exact hquote
    · exact hescape

end Conditions
