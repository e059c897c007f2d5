import ProofHarness.Json.Value
import ProofHarness.Report.Basic
import ProofHarness.Report.RunError

/-!
# Summaries of reports

A report, with the error of its run if there is one, for people and as JSON.
-/

set_option autoImplicit false

namespace ProofHarness.Report

open Json (Value)

/-- Whether a run verified what it was to verify. -/
def succeeds (r : Report) (error : Option RunError) : Bool := r.isSuccess && error.isNone

/-- An outcome for people. -/
def statusLabel : Status → String
  | .success => "✅ SUCCESS"
  | .failure => "❌ FAILURE"
  | .unknown word => "⚠️  UNKNOWN (" ++ word ++ ")"

/-- A check for people; of a failed one also what and where it is. -/
def checkText (c : Check) : String :=
  c.property ++ "\n  Status: " ++ statusLabel c.status ++ "\n" ++
    if c.isFailure then
      "    Description: " ++ c.description ++ "\n    Location: " ++ c.location ++ "\n"
    else ""

/-- The report for people. -/
def human (r : Report) (error : Option RunError) : String :=
  ((error.map fun e => "❌ " ++ e.message ++ "\n\n").getD "") ++
    String.join (r.checks.map checkText) ++
    String.join (r.warnings.map fun w => "⚠️  " ++ w ++ "\n") ++
    "\nverification result: " ++ (if r.succeeds error then "ok" else "FAILED") ++ ". " ++
    Text.numeral r.checks.length ++ " checks; " ++ Text.numeral r.failedChecks.length ++
    " failed\n"

/-- An outcome as JSON. -/
def statusValue : Status → Value
  | .success => .string "success"
  | .failure => .string "failure"
  | .unknown word => .object [("unknown", .string word)]

/-- A check as JSON. -/
def checkValue (c : Check) : Value :=
  .object [("description", .string c.description), ("location", .string c.location),
    ("number", (c.number.map Value.number).getD .null), ("property", .string c.property),
    ("status", statusValue c.status)]

/-- The word for a verdict. -/
def verdictWord : Verdict → String
  | .successful => "successful"
  | .failed => "failed"

/-- The report as JSON. -/
def json (r : Report) (error : Option RunError) : String :=
  Value.pretty (.object
    [("error", .nullable (error.map RunError.message)),
      ("failed_properties", .string r.failedProperties),
      ("last_failure", .nullable r.lastFailure?),
      ("report", .ofPresent [("checks", some (.list (r.checks.map checkValue))),
        ("verdict", r.verdict.map fun v => .string (verdictWord v)),
        ("warnings", some (.strings r.warnings))]),
      ("success", .bool (r.succeeds error))])

end ProofHarness.Report
