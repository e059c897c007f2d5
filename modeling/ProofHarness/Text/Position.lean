/-!
# Positions

Places in a text, counted in rows and in bytes within a row, both from zero.  `Position.after` says
which place comes after a text; `Position.next` finds the same place one character at a time.
-/

set_option autoImplicit false

namespace ProofHarness.Text

/-- A place in a text: its row, and the bytes in front of it on that row. -/
structure Position where
  row : Nat
  column : Nat
  deriving DecidableEq, Repr

/-- The number of bytes of a text in UTF-8. -/
def byteCount (s : List Char) : Nat := s.foldr (fun c n => c.utf8Size + n) 0

namespace Position

/-- The place at which a text starts. -/
def zero : Position := ⟨0, 0⟩

instance : Inhabited Position := ⟨zero⟩

/-- The place after a text, which is given backwards. -/
def after (before : List Char) : Position :=
  ⟨before.count '\n', byteCount (before.takeWhile (· != '\n'))⟩

/-- The place after one more character. -/
def next (p : Position) (c : Char) : Position :=
  if c == '\n' then ⟨p.row + 1, 0⟩ else ⟨p.row, p.column + c.utf8Size⟩

/-- Whether a place is not behind another, by rows and then by columns. -/
def le (p q : Position) : Bool := p.row < q.row || (p.row == q.row && p.column ≤ q.column)

/-- The row is the number of line feeds before it. -/
@[simp] theorem row_after (before : List Char) : (after before).row = before.count '\n' := rfl

/-- `next` goes on from the place after a text to the place after one more character. -/
theorem next_after (before : List Char) (c : Char) :
    (after before).next c = after (c :: before) := by
  by_cases h : c = '\n'
  · subst h
    simp [next, after, byteCount]
  · simp [next, after, byteCount, h, Nat.add_comm]

/-- Going on over several characters. -/
theorem foldl_next_after (before s : List Char) :
    s.foldl next (after before) = after (s.reverse ++ before) := by
  induction s generalizing before with
  | nil => rfl
  | cons c cs ih => simp [next_after, ih]

end Position

end ProofHarness.Text
