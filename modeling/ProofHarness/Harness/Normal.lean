import ProofHarness.Harness.Basic
import ProofHarness.Text.Line
import ProofHarness.Text.Numeral

/-!
# Validation and normal form

A harness fits a text when the row of its name is, without the blanks around it, the line that it
records.  Normalizing harnesses orders them by row, works out their arguments, and sets apart
those that do not fit.
-/

set_option autoImplicit false

namespace ProofHarness

/-- A harness whose line is not found where it should be. -/
structure Desync where
  harness : String
  row : Nat
  expected : String
  found : String
  deriving DecidableEq, Repr

/-- What is said of such a harness; rows are counted from one. -/
def Desync.message (d : Desync) : String :=
  "harness '" ++ d.harness ++ "' desynced at line " ++ Text.numeral (d.row + 1) ++
    ": expected `" ++ d.expected ++ "`, found `" ++ d.found ++ "`"

namespace Harness

/-- The line that should be the line of the harness, of the lines of a text without the blanks
around them; empty if there are not so many. -/
def foundLine (rows : Array String) (h : Harness) : String := rows[h.stop.row]?.getD ""

/-- Whether the harness fits the lines of a text. -/
def fits (rows : Array String) (h : Harness) : Bool := h.foundLine rows == h.line

/-- The difference between what the harness records and what a text has in its place. -/
def toDesync (rows : Array String) (h : Harness) : Desync :=
  ⟨h.name, h.stop.row, h.line, h.foundLine rows⟩

/-- The difference between a harness and the lines of a text that it does not fit. -/
def desync? (rows : Array String) (h : Harness) : Option Desync :=
  if h.fits rows then none else some (h.toDesync rows)

/-- Whether one harness does not come after another. -/
def rowLe (h k : Harness) : Bool := decide (h.stop.row ≤ k.stop.row)

end Harness

/-- Harnesses in normal form, and what became of the others. -/
structure Normalized where
  harnesses : List Harness
  desyncs : List Desync
  deriving DecidableEq, Repr

/-- The normal form of harnesses of a text. -/
def normalize (text : String) (hs : List Harness) : Normalized :=
  let rows := Text.trimmedLines text
  let ready := (hs.mergeSort Harness.rowLe).map Harness.withArguments
  ⟨ready.filter (Harness.fits rows), ready.filterMap (Harness.desync? rows)⟩

/-- A harness has no difference exactly if it fits. -/
theorem Harness.desync?_eq_none_iff {rows : Array String} {h : Harness} :
    h.desync? rows = none ↔ h.fits rows = true := by
  by_cases hf : h.fits rows = true <;> simp [Harness.desync?, hf]

end ProofHarness
