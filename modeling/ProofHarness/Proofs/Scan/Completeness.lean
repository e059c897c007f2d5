import ProofHarness.Proofs.Harness.Extraction
import ProofHarness.Proofs.Module.Attachment
import ProofHarness.Proofs.Syntax.NodePlace
import ProofHarness.Proofs.Text.Row
import ProofHarness.Scan

/-!
# Scans lose no harness

A harness of a tree records the line around the name of its function, which it takes from the text
on both sides of the name.  Validation cuts the text into lines and takes the one with the number of
the row.  Where the names of the functions stand in the text the two agree, so that a harness fits
the text that it was found in, however the lines of the text end; a scan therefore has nothing to
set apart.
-/

set_option autoImplicit false

namespace ProofHarness

open Syntax

/-- The names of the functions below the root of a tree stand in a text. -/
def Syntax.Node.FunctionsStandIn (s : List Char) (root : Node) : Prop :=
  ∀ f ∈ root.descendants .function, ∀ g, f.name = some g → g.StandsIn s

/-- Those in the tree of a text do. -/
theorem functionsStandIn_ofSource (text : String) :
    (Node.ofSource text).FunctionsStandIn text.toList := by
  intro f hf g hg
  rw [Node.descendants_eq_filter, List.mem_filter] at hf
  apply namesStandIn_ofSource text f _ g hg
  rw [Node.preorder_eq_cons]
  exact List.mem_cons_of_mem _ hf.1

/-- What reads source texts finds the names of functions where they stand. -/
def Syntax.Faithful (parse : String → Node) : Prop :=
  ∀ text, (parse text).FunctionsStandIn text.toList

/-- The parser of this library does. -/
theorem faithful_ofSource : Faithful Node.ofSource := functionsStandIn_ofSource

/-- The line with the number of the row of a name is the line around the name. -/
theorem foundLine_of_standsIn {text : String} {g : Segment} (hg : g.StandsIn text.toList)
    {h : Harness} (hstop : h.stop = g.stop) :
    h.foundLine (Text.trimmedLines text) = Text.trimmed g.line := by
  obtain ⟨before, token, after, htext, hbetween⟩ := hg
  have hrow : h.stop.row = before.count '\n' := by
    rw [hstop, hbetween.stopRow, List.count_append, List.count_reverse,
      List.count_eq_zero.2 hbetween.oneLine, Nat.zero_add]
  rw [List.append_assoc] at htext
  rw [Harness.foundLine_trimmedLines, hrow, hbetween.line, Text.trimmed_lineAround htext]

/-- The harnesses of a tree fit the text in which its functions stand. -/
theorem allFit_ofTree {text : String} {root : Node} (hroot : root.FunctionsStandIn text.toList) :
    AllFit text (Harness.ofTree root) := by
  intro h hh
  obtain ⟨f, hf, hfunction, g, hg, hfound⟩ := Harness.exists_function_of_mem_ofTree hh
  have hmem : f ∈ root.descendants .function := by
    rw [Node.descendants_eq_filter, List.mem_filter]
    exact ⟨hf, hfunction⟩
  have hline := foundLine_of_standsIn (hroot f hmem g hg) hfound.stop
  rw [Harness.fits, hline, hfound.line]
  exact beq_self_eq_true _

/-- A scan has set nothing apart, and its harnesses are those of a tree, each once; only arguments
and modules were filled in. -/
structure Scan.KeepsAll (s : Scan) (root : Node) : Prop where
  desyncs : s.desyncs = []
  harnesses : (s.harnesses.map Harness.asFound).Perm (Harness.ofTree root)
  length : s.harnesses.length = (Harness.ofTree root).length

/-- The harnesses of a tree are as they are found. -/
theorem map_asFound_ofTree (root : Node) :
    (Harness.ofTree root).map Harness.asFound = Harness.ofTree root := by
  rw [List.map_congr_left (g := id), List.map_id]
  intro h hh
  obtain ⟨f, -, -, g, -, hfound⟩ := Harness.exists_function_of_mem_ofTree hh
  cases h
  obtain ⟨-, -, -, -, harguments, hmodule⟩ := hfound
  simp_all [Harness.asFound]

/-- A scan of a tree keeps all harnesses if the functions of the tree stand in the text. -/
theorem keepsAll_ofTree {text : String} {root : Node} (hroot : root.FunctionsStandIn text.toList)
    (strategy : ModulePaths) : (Scan.ofTree root text strategy).KeepsAll root := by
  have hfit : AllFit text (attachModules root strategy (Harness.ofTree root)) :=
    allFit_attachModules.2 (allFit_ofTree hroot)
  have hperm := map_asFound_normalize_perm hfit
  rw [map_asFound_attachModules, map_asFound_ofTree] at hperm
  refine ⟨?_, hperm, ?_⟩
  · rw [Scan.ofTree, normalize_of_fits hfit, Scan.ofNormalized]
  · rw [← hperm.length_eq, List.length_map]
    rfl

/-- The scan of a text reports no difference and loses no harness, whatever the strategy.  The same
holds of every tree whose functions stand in the text, not only of the one that is read from it. -/
theorem scan_keepsAll (text : String) (strategy : ModulePaths) :
    (∀ root : Node, root.FunctionsStandIn text.toList →
        (Scan.ofTree root text strategy).KeepsAll root) ∧
      (Scan.ofSource text strategy).KeepsAll (Node.ofSource text) :=
  ⟨fun _ hroot => keepsAll_ofTree hroot strategy,
    keepsAll_ofTree (functionsStandIn_ofSource text) strategy⟩

end ProofHarness
