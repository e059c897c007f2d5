import ProofHarness.Text.Line
import ProofHarness.Text.Search

/-!
# Failed runs

Runs that did not get as far as verifying anything, told by what the verifier printed.
-/

set_option autoImplicit false

namespace ProofHarness

open Text

/-- Why a run failed. -/
inductive RunError where
  /-- No harness has the name that was asked for. -/
  | noHarness (filter : String)
  | compilation (message : String)
  deriving DecidableEq, Repr

namespace RunError

/-- What is said of a failed run. -/
def message : RunError → String
  | .noHarness filter => "no harness matched the filter `" ++ filter ++ "`"
  | .compilation message => "compilation failed: " ++ message

/-- The words by which the verifier says that no harness has the name. -/
def noHarnessMarker : List Char := "no harnesses matched the harness filter".toList

/-- The words that stand in the output of a failed compilation. -/
def compilationMarkers : List (List Char) :=
  ["could not compile", "error: aborting due to"].map String.toList

/-- The name that was asked for: after the marker and any colons, between backticks. -/
def filterOf (rest : List Char) : List Char :=
  trimMatches '\x60' (trim (rest.dropWhile (· == ':')))

/-- The name in a line that says that no harness has it. -/
def noHarness? (line : List Char) : Option RunError :=
  (splitOnce noHarnessMarker line).map fun sides =>
    .noHarness (String.ofList (filterOf sides.2))

/-- Whether a line tells of a failed compilation. -/
def isCompilation (line : List Char) : Bool := compilationMarkers.any fun m => contains m line

/-- What is said of a failed compilation: the first line that starts as an error. -/
def compilationMessage (all : List (List Char)) : List Char :=
  (all.find? fun line => "error".toList.isPrefixOf line).getD []

/-- The lines of a run without the blanks around them, those on standard error first. -/
def outputLines (stdout stderr : String) : List (List Char) :=
  (lines stderr.toList ++ lines stdout.toList).map trim

/-- Why a run failed, if it did; a name without harness comes before anything else. -/
def ofOutput? (stdout stderr : String) : Option RunError :=
  let all := outputLines stdout stderr
  (all.findSome? noHarness?).or
    (if all.any isCompilation then some (.compilation (String.ofList (compilationMessage all)))
    else none)

end RunError

end ProofHarness
