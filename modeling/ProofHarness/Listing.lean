import ProofHarness.Json.Value
import ProofHarness.Scan
import ProofHarness.Text.Glob

/-!
# Listings

Scans of several files as a listing for people, as JSON, and as a table; and the choice of the
harnesses whose name matches a pattern.
-/

set_option autoImplicit false

namespace ProofHarness

open Json (Value)

namespace Scan

/-- The part of a scan whose names match a pattern. -/
def restrict (pattern : Text.NamePattern) (s : Scan) : Scan :=
  { s with
    harnesses := s.harnesses.filter fun h => pattern.accepts h.name
    desyncs := s.desyncs.filter fun d => pattern.accepts d.harness }

end Scan

/-- The parts of scans whose names match a pattern, without scans of which nothing is left; without
a pattern all scans. -/
def filterScans (pattern : Option String) (scans : List Scan) : List Scan :=
  match pattern with
  | none => scans
  | some text =>
    (scans.map (Scan.restrict (.ofString text))).filter fun s => !s.isEmpty

/-- Scans, and what is to be said of the files that could not be read. -/
structure Listing where
  scans : List Scan
  problems : List String
  deriving DecidableEq, Repr

namespace Listing

/-- What is counted in each scan, added up. -/
def total (count : Scan → Nat) (l : Listing) : Nat := l.scans.foldr (fun s n => count s + n) 0

/-- The number of harnesses. -/
def harnessCount (l : Listing) : Nat := l.total fun s => s.harnesses.length

/-- The number of harnesses that do not fit their text. -/
def desyncCount (l : Listing) : Nat := l.total fun s => s.desyncs.length

/-- Whether some harness does not fit its text. -/
def hasDesyncs (l : Listing) : Bool := l.scans.any Scan.hasDesyncs

/-- The bound of a harness in a listing. -/
def unwindLabel? (h : Harness) : Option String :=
  h.arguments.unwind.map fun bound =>
    match bound.value? with
    | some n => Text.numeral n
    | none => "?"

/-- The flags of a harness in a listing. -/
def flagLabels (h : Harness) : List String :=
  (if h.flags.isTest then ["tests"] else []) ++ (if h.flags.hasStub then ["stubbing"] else [])

/-- A harness on one line. -/
def harnessLine (h : Harness) : String :=
  h.name ++ " (line " ++ Text.numeral (h.stop.row + 1) ++ ")" ++
    ((h.module.map fun path => " [" ++ path ++ "]").getD "") ++
    (((unwindLabel? h).map fun label => " unwind=" ++ label).getD "") ++
    ((h.arguments.solver.map fun solver => " solver=" ++ solver).getD "") ++
    (if (flagLabels h).isEmpty then "" else " (" ++ Text.joined ", " (flagLabels h) ++ ")")

/-- A harness with its attributes, a line each. -/
def harnessLines (h : Harness) : List String :=
  ("  " ++ harnessLine h) :: h.attributes.map fun attr => "      " ++ attr

/-- A scan, a line for each thing in it, and an empty line. -/
def scanLines (s : Scan) : List String :=
  s.path.getD "<source>" ::
    (s.harnesses.flatMap harnessLines ++ s.desyncs.map (fun d => "  ❌ " ++ d.message) ++ [""])

/-- The line that sums a listing up. -/
def summaryLine (l : Listing) : String :=
  "harnesses: " ++ (if l.desyncCount > 0 then "DESYNCED" else "ok") ++ ". " ++
    Text.numeral l.harnessCount ++ " found in " ++ Text.numeral l.scans.length ++ " files; " ++
    Text.numeral l.desyncCount ++ " desynced; " ++ Text.numeral l.problems.length ++
    " unreadable"

/-- Lines, each with its end. -/
def ended (lines : List String) : String := String.join (lines.map fun line => line ++ "\n")

/-- The listing for people. -/
def human (l : Listing) : String :=
  ended (l.scans.flatMap scanLines ++ l.problems.map (fun p => "⚠️  " ++ p) ++ [l.summaryLine])

/-- A bound as JSON. -/
def boundValue : Attribute.UnwindBound → Value
  | .bounded n => .object [("bounded", .number n)]
  | .unspecified => .string "unspecified"

/-- A harness as JSON. -/
def harnessValue (h : Harness) : Value :=
  .ofPresent
    [("args", some (.ofPresent [("solver", h.arguments.solver.map Value.string),
        ("unwind", h.arguments.unwind.map boundValue)])),
      ("attributes", some (.strings h.attributes)),
      ("end_position", some (.object [("column", .number h.stop.column),
        ("row", .number h.stop.row)])),
      ("flags", some (.object [("has_stub", .bool h.flags.hasStub),
        ("is_proof", .bool h.flags.isProof), ("is_test_style", .bool h.flags.isTest)])),
      ("full_line", some (.string h.line)),
      ("module", h.module.map Value.string),
      ("name", some (.string h.name))]

/-- A harness that does not fit its text, as JSON. -/
def desyncValue (d : Desync) : Value :=
  .object [("expected", .string d.expected), ("found", .string d.found),
    ("harness", .string d.harness), ("row", .number d.row)]

/-- A scan as JSON. -/
def scanValue (s : Scan) : Value :=
  .ofPresent [("desyncs", some (.list (s.desyncs.map desyncValue))),
    ("harnesses", some (.list (s.harnesses.map harnessValue))),
    ("path", s.path.map Value.string)]

/-- The listing as JSON. -/
def json (l : Listing) : String :=
  Value.pretty (.object
    [("errors", .strings l.problems),
      ("files", .list (l.scans.map scanValue)),
      ("summary", .object [("desyncs", .number l.desyncCount), ("files", .number l.scans.length),
        ("harnesses", .number l.harnessCount), ("unreadable", .number l.problems.length)])])

/-- A row of a table. -/
def tableRow (cells : List String) : String := "| " ++ Text.joined " | " cells ++ " |"

/-- A text set as code. -/
def code (text : String) : String := "`" ++ text ++ "`"

/-- The row of a harness. -/
def harnessRow (s : Scan) (h : Harness) : String :=
  tableRow [code (s.path.getD ""), code h.name, Text.numeral (h.stop.row + 1),
    h.module.getD "-", (unwindLabel? h).getD "-", h.arguments.solver.getD "-",
    Text.joined ", " (flagLabels h)]

/-- The listing as a table, with a list of the harnesses that do not fit their text. -/
def markdown (l : Listing) : String :=
  let desyncs := l.scans.flatMap Scan.desyncs
  ended
    (["# Kani Harnesses", "",
        "| File | Harness | Line | Module | Unwind | Solver | Flags |",
        "|------|---------|------|--------|--------|--------|-------|"] ++
      l.scans.flatMap (fun s => s.harnesses.map (harnessRow s)) ++
      if desyncs.isEmpty then []
      else ["", "## Desynced Harnesses", ""] ++ desyncs.map fun d => "- " ++ d.message)

end Listing

end ProofHarness
