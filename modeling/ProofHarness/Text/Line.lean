import ProofHarness.Text.Blank

/-!
# Lines

A text as a list of lines, and the line on which a place of the text stands.  A line ends with a
line feed, or with a carriage return and a line feed; what follows the last line feed is a line
of its own unless it is empty.
-/

set_option autoImplicit false

namespace ProofHarness.Text

/-- A line that a line feed ended, without the carriage return before that line feed. -/
def dropReturn (line : List Char) : List Char :=
  match line.getLast? with
  | some '\r' => line.dropLast
  | _ => line

/-- The lines of a text; `started` holds, backwards, what was read of the present line. -/
def linesFrom : List Char → List Char → List (List Char)
  | [], [] => []
  | started, [] => [started.reverse]
  | started, c :: cs =>
    if c == '\n' then dropReturn started.reverse :: linesFrom [] cs
    else linesFrom (c :: started) cs

/-- The lines of a text, without their ends. -/
def lines (s : List Char) : List (List Char) := linesFrom [] s

/-- The lines of a text without the blanks around them. -/
def trimmedLines (text : String) : Array String :=
  ((lines text.toList).map fun line => String.ofList (trim line)).toArray

/-- What stands on the present line before a place; the text before the place is given
backwards. -/
def lineStart (before : List Char) : List Char := (before.takeWhile (· != '\n')).reverse

/-- What stands on the present line from a place on. -/
def lineRest (after : List Char) : List Char := after.takeWhile (· != '\n')

/-- The whole line around a place, without the carriage returns it ends with.  The text before
the place is given backwards. -/
def lineAround (before after : List Char) : List Char :=
  ((lineStart before ++ lineRest after).reverse.dropWhile (· == '\r')).reverse

end ProofHarness.Text
