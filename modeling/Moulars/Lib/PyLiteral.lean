import Mathlib.Data.Nat.Notation
import Mathlib.Tactic.TypeStar

/-!
Python's string literals in single quotes, as they are read from a source text.

The escape sequences of quotes, backslashes and line ends are the same in all versions; what the
others mean is a parameter.
-/

namespace Moulars.Lib.PyLiteral

/-- The other escape sequences: from the character after the backslash and the text behind it, the
characters that are meant and the text that is left. -/
abbrev Escapes := Char → List Char → Option (List Char × List Char)

/-- The characters that end a line, or that no source text may have. -/
def lineEnds : List Char := ['\n', '\r', '\x00']

variable (other : Escapes)

/-- The characters up to the closing quote, in at most the given number of steps: what they stand
for, and the text behind the quote. -/
def items : ℕ → List Char → Option (List Char × List Char)
  | _ + 1, '\'' :: text => some ([], text)
  | n + 1, '\\' :: c :: text =>
    if c = '\\' ∨ c = '\'' ∨ c = '"' then (items n text).map fun r => (c :: r.1, r.2)
    else if c = '\n' then items n text
    else (other c text).bind fun (cs, text) => (items n text).map fun r => (cs ++ r.1, r.2)
  | n + 1, c :: text =>
    if c = '\\' ∨ c ∈ lineEnds then none else (items n text).map fun r => (c :: r.1, r.2)
  | _, _ => none

/-- A literal at the beginning of a text: what it stands for, and the text behind it. -/
def literal (text : List Char) : Option (List Char × List Char) :=
  match text with
  -- a longer string begins here
  | '\'' :: '\'' :: '\'' :: _ => none
  | '\'' :: text => items other text.length text
  | _ => none

section Items

variable {n : ℕ} {text rest value : List Char}

lemma items_escaped {c : Char} (hc : c = '\\' ∨ c = '\'' ∨ c = '"')
    (h : items other n text = some (value, rest)) :
    items other (n + 1) ('\\' :: c :: text) = some (c :: value, rest) := by
  rw [items, if_pos hc, h, Option.map_some]

lemma items_plain {c : Char} (hquote : c ≠ '\'') (hback : c ≠ '\\') (hline : c ∉ lineEnds)
    (h : items other n text = some (value, rest)) :
    items other (n + 1) (c :: text) = some (c :: value, rest) := by
  rw [items, if_neg (not_or.2 ⟨hback, hline⟩), h, Option.map_some]
  · exact hquote
  · exact fun _ _ hc => absurd hc hback

lemma literal_eq (h : ∀ tail, text ≠ '\'' :: '\'' :: tail) :
    literal other ('\'' :: text) = items other text.length text := by
  rw [literal]
  exact h

end Items

end Moulars.Lib.PyLiteral
