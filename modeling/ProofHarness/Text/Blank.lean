/-!
# Blanks

White space as Unicode defines it, and the three operations on text that are built on it:
trimming at either end, and squeezing every blank out.
-/

set_option autoImplicit false

namespace ProofHarness.Text

/-- A character is blank when it has the Unicode property `White_Space`. -/
def isBlank (c : Char) : Bool :=
  let n := c.toNat
  (9 ≤ n && n ≤ 13) || n == 32 || n == 0x85 || n == 0xA0 || n == 0x1680 ||
    (0x2000 ≤ n && n ≤ 0x200A) || n == 0x2028 || n == 0x2029 || n == 0x202F ||
    n == 0x205F || n == 0x3000

/-- The text without the blanks it starts with. -/
def trimStart (s : List Char) : List Char := s.dropWhile isBlank

/-- The text without the blanks it ends with. -/
def trimEnd (s : List Char) : List Char := (s.reverse.dropWhile isBlank).reverse

/-- The text without the blanks at its two ends. -/
def trim (s : List Char) : List Char := trimEnd (trimStart s)

/-- The text without any of its blanks. -/
def compact (s : List Char) : List Char := s.filter fun c => !isBlank c

/-- `trim` on strings. -/
def trimmed (s : String) : String := String.ofList (trim s.toList)

/-- The text without the copies of `c` at its two ends. -/
def trimMatches (c : Char) (s : List Char) : List Char :=
  ((s.dropWhile (· == c)).reverse.dropWhile (· == c)).reverse

/-- A carriage return is a blank. -/
theorem isBlank_return : isBlank '\r' = true := by decide

/-- The blanks of two texts are left out in each of them. -/
theorem compact_append (s t : List Char) : compact (s ++ t) = compact s ++ compact t :=
  List.filter_append ..

end ProofHarness.Text
