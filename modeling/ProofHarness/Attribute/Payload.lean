import ProofHarness.Text.Numeral
import ProofHarness.Text.Search

/-!
# Payloads

What stands in the parentheses after a word.  The leftmost place counts at which the word, any
blanks and an opening parenthesis are followed by a closing one; the payload ends at the first
closing parenthesis, whatever was opened before it.
-/

set_option autoImplicit false

namespace ProofHarness.Attribute

open Text

/-- The payload of a text that starts with the word. -/
def payloadHere? (word s : List Char) : Option (List Char) :=
  (stripPrefix word s).bind fun rest =>
    match trimStart rest with
    | '(' :: inner =>
      if inner.contains ')' then some (inner.takeWhile (· != ')')) else none
    | _ => none

/-- The payload of the leftmost occurrence of the word that has one. -/
def payload? (word : List Char) : List Char → Option (List Char)
  | [] => none
  | c :: cs => (payloadHere? word (c :: cs)).or (payload? word cs)

/-- The first longest run of decimal digits, of any script; empty if there is none. -/
def firstDecimals (s : List Char) : List Char :=
  (s.dropWhile fun c => !isDecimal c).takeWhile isDecimal

/-- A payload starts at the word itself and holds no closing parenthesis. -/
theorem payloadHere?_eq_some {word s payload : List Char}
    (h : payloadHere? word s = some payload) :
    ∃ rest inner, s = word ++ rest ∧ trimStart rest = '(' :: inner ∧
      payload = inner.takeWhile (· != ')') ∧ ')' ∈ inner := by
  obtain ⟨rest, hrest, h⟩ := Option.bind_eq_some_iff.1 h
  refine ⟨rest, ?_⟩
  split at h
  · rename_i inner hinner
    split at h
    · rename_i hmem
      refine ⟨inner, stripPrefix_eq_some_iff.1 hrest, hinner, ?_, by simpa using hmem⟩
      simpa using h.symm
    · simp at h
  · simp at h

example : payload? "unwind".toList "#[unwind (7)]".toList = some ['7'] := by decide
example : payload? "f".toList "f f(a(b)c)".toList = some "a(b".toList := by decide
example : payload? "f".toList "f(".toList = none := by decide
example : firstDecimals "x12y3".toList = ['1', '2'] := by decide

end ProofHarness.Attribute
