import ProofHarness.Proofs.Scan.Completeness
import ProofHarness.Proofs.StableSort

/-!
# Harnesses in the order of their rows

A scan lists the harnesses of its text in the order of the rows of their names.  The order does not
tell harnesses of one row apart: these stay in the order in which they are found.
-/

set_option autoImplicit false

namespace ProofHarness

open Syntax

namespace Harness

variable {found ordered : List Harness}

/-- A list has what is found in the order of the rows, and what is found in one row in the order in
which it is found. -/
structure InRowOrder (found ordered : List Harness) : Prop where
  rows : ordered.Pairwise fun h k => h.stop.row ≤ k.stop.row
  ties : ∀ row, (ordered.filter fun h => h.stop.row == row) =
    found.filter fun h => h.stop.row == row

/-- Sorting brings harnesses into the order of their rows. -/
theorem inRowOrder_mergeSort (found : List Harness) : InRowOrder found (found.mergeSort rowLe) := by
  constructor
  · exact (List.pairwise_mergeSort rowLe_trans rowLe_total found).imp rowLe_iff.1
  · intro row
    apply filter_mergeSort rowLe_trans rowLe_total
    intro h k hh hk
    rw [beq_iff_eq] at hh hk
    rw [rowLe_iff, hh, hk]

/-- There is one way to put harnesses into the order of their rows that keeps ties. -/
theorem InRowOrder.eq {ordered' : List Harness} (h : InRowOrder found ordered)
    (h' : InRowOrder found ordered') : ordered = ordered' :=
  eq_of_ordered_of_ties h.rows h'.rows fun row => (h.ties row).trans (h'.ties row).symm

/-- The same harnesses are in both lists. -/
theorem InRowOrder.mem_iff (h : InRowOrder found ordered) {k : Harness} :
    k ∈ ordered ↔ k ∈ found := mem_iff_of_ties h.ties k

/-- Where nothing is found nothing is listed. -/
theorem InRowOrder.eq_nil_iff (h : InRowOrder found ordered) : ordered = [] ↔ found = [] := by
  simp only [List.eq_nil_iff_forall_not_mem, h.mem_iff]

/-- The accepted harnesses are in order, too. -/
theorem InRowOrder.filter (h : InRowOrder found ordered) (accepts : Harness → Bool) :
    InRowOrder (found.filter accepts) (ordered.filter accepts) := by
  refine ⟨h.rows.filter accepts, ?_⟩
  intro row
  rw [List.filter_comm, h.ties, List.filter_comm]

end Harness

/-- The harnesses of a tree with their modules, in the order in which they are found. -/
def Harness.found (root : Node) (strategy : ModulePaths) : List Harness :=
  attachModules root strategy (Harness.ofTree root)

/-- A scan has the harnesses that are found, in order and with their arguments. -/
theorem Scan.harnesses_ofTree {text : String} {root : Node}
    (hroot : root.FunctionsStandIn text.toList) (strategy : ModulePaths) :
    (Scan.ofTree root text strategy).harnesses =
      ((Harness.found root strategy).mergeSort Harness.rowLe).map Harness.withArguments := by
  have hfit : AllFit text (Harness.found root strategy) :=
    allFit_attachModules.2 (allFit_ofTree hroot)
  rw [Scan.ofTree, ofNormalized, ← Harness.found, normalize_of_fits hfit]

end ProofHarness
