import ProofHarness.Text.Regex

/-!
# Name patterns

A pattern in which each star stands for any text without a line feed and every other character
for itself.  The whole name has to match.

A pattern with stars becomes a regular expression: the pieces between the stars are escaped, `.*`
stands in the places of the stars, and anchors at both ends.
-/

set_option autoImplicit false

namespace ProofHarness.Text

/-- A name matcher. -/
inductive NamePattern where
  /-- Matches this name only. -/
  | exact (name : List Char)
  /-- Matches the names that the expression matches. -/
  | glob (expression : Regex)
  deriving DecidableEq, Repr

namespace NamePattern

/-- The regular expression of a pattern with stars. -/
def expressionText (pattern : List Char) : List Char :=
  ['^'] ++ join ['.', '*'] ((splitOn ['*'] pattern).map Regex.escape) ++ ['$']

/-- The matcher of a pattern: a text without a star, or one whose expression does not fit, is
matched exactly. -/
def compile (fits : List Char → Bool) (pattern : String) : NamePattern :=
  if pattern.toList.contains '*' then
    match Regex.ofText? fits (expressionText pattern.toList) with
    | some expression => .glob expression
    | none => .exact pattern.toList
  else .exact pattern.toList

/-- The matcher of a pattern, however long that is. -/
def ofString (pattern : String) : NamePattern := compile (fun _ => true) pattern

/-- Whether a name matches. -/
def accepts : NamePattern → String → Bool
  | .exact expected, name => name.toList == expected
  | .glob expression, name => expression.isMatch name.toList

example : (ofString "a*c").accepts "abc" = true := by decide +kernel
example : (ofString "*").accepts "" = true := by decide +kernel
example : (ofString "a*a").accepts "a" = false := by decide +kernel
example : (ofString "**b*").accepts "abba" = true := by decide +kernel

end NamePattern

end ProofHarness.Text
