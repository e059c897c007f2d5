import ProofHarness.Text.Blank
import ProofHarness.Text.Search

/-!
# Verification reports

What the verifier reports of a run: its checks, and a verdict.
-/

set_option autoImplicit false

namespace ProofHarness

/-- The outcome of a check. -/
inductive Status where
  | success
  | failure
  /-- A word that is not known, which never counts as a success. -/
  | unknown (word : String)
  deriving DecidableEq, Repr

/-- The outcome that a word stands for. -/
def Status.ofString (text : String) : Status :=
  let word := Text.trimmed text
  if ["SUCCESS", "SATISFIED", "UNREACHABLE"].contains word then .success
  else if ["FAILURE", "UNDETERMINED", "UNSATISFIABLE"].contains word then .failure
  else .unknown word

/-- One check of a run. -/
structure Check where
  number : Option Nat
  property : String
  status : Status
  description : String
  location : String
  deriving DecidableEq, Repr

namespace Check

/-- Whether a check has failed. -/
def isFailure (c : Check) : Bool := c.status == .failure

/-- The word of a status that is not known. -/
def unknownWord? (c : Check) : Option String :=
  match c.status with
  | .unknown word => some word
  | _ => none

/-- What is said of a failed check. -/
def failureMessage (c : Check) : String :=
  "Property - " ++ c.property ++ "\nMessage - " ++ c.description ++ "\nLocation - " ++ c.location

/-- The warning about a status that is not known. -/
def warning? (c : Check) : Option String :=
  c.unknownWord?.map fun word =>
    "check '" ++ c.property ++ "' has unknown status '" ++ word ++ "'"

end Check

/-- The last word on a run. -/
inductive Verdict where
  | successful
  | failed
  deriving DecidableEq, Repr

/-- What the verifier reports of a run. -/
structure Report where
  checks : List Check
  verdict : Option Verdict
  warnings : List String
  deriving DecidableEq, Repr

namespace Report

/-- The report of some checks and a verdict, with the warnings that the checks give rise to. -/
def ofChecks (checks : List Check) (verdict : Option Verdict) : Report :=
  ⟨checks, verdict, checks.filterMap Check.warning?⟩

/-- The checks that have failed, in order. -/
def failedChecks (r : Report) : List Check := r.checks.filter Check.isFailure

/-- What is said of all failed checks. -/
def failedProperties (r : Report) : String :=
  Text.joined "\n" (r.failedChecks.map Check.failureMessage)

/-- The description of the last failed check. -/
def lastFailure? (r : Report) : Option String := r.failedChecks.getLast?.map Check.description

/-- Whether the status of some check is a word that is not known. -/
def hasUnknownStatus (r : Report) : Bool := r.checks.any fun c => c.unknownWord?.isSome

/-- Whether no check failed, every status is known, and the verdict is not against it. -/
def isSuccess (r : Report) : Bool :=
  r.failedChecks.isEmpty && !r.hasUnknownStatus && r.verdict != some .failed

end Report

end ProofHarness
