import ProofHarness.Module.Strategy
import ProofHarness.Proofs.Harness.Normalization

/-!
# Attaching module paths

Attaching sets the module path of each record by itself: to the path that the strategy finds for
the name, or for the place, of the record (`attachModules_eq_map`).  Such a change passes through
normalizing (`normalize_map_withModule`), so that the steps may be taken in any order and again
(`attach_normalize_exchange`).
-/

set_option autoImplicit false

namespace ProofHarness

open Syntax

/-- The module path that a strategy finds for a harness in a tree. -/
def ModulePaths.path? (strategy : ModulePaths) (root : Node) (h : Harness) : Option String :=
  match strategy with
  | .reverseIndex => Table.get? (indexedPaths (Enclosure.ofTree root)) h.name
  | .ancestorChain => Table.get? (chainPaths root) h.stop

/-- A strategy looks at the name and the place of a harness only. -/
@[simp] theorem ModulePaths.path?_withArguments (strategy : ModulePaths) (root : Node)
    (h : Harness) : strategy.path? root h.withArguments = strategy.path? root h := by
  cases strategy <;> rfl

/-- Attaching goes record by record. -/
theorem attachModules_eq_map (root : Node) (strategy : ModulePaths) (hs : List Harness) :
    attachModules root strategy hs = hs.map fun h => h.withModule (strategy.path? root h) := by
  cases strategy <;> rfl

/-- Modules are all that is attached. -/
theorem map_asFound_attachModules (root : Node) (strategy : ModulePaths) (hs : List Harness) :
    (attachModules root strategy hs).map Harness.asFound = hs.map Harness.asFound := by
  rw [attachModules_eq_map, List.map_map]
  rfl

/-- Module paths do not matter to whether harnesses fit. -/
theorem allFit_attachModules {text : String} {root : Node} {strategy : ModulePaths}
    {hs : List Harness} : AllFit text (attachModules root strategy hs) ↔ AllFit text hs := by
  rw [attachModules_eq_map]
  simp [AllFit]

/-- Module paths that do not look at arguments may be set before or after normalizing. -/
theorem normalize_map_withModule {path : Harness → Option String}
    (hpath : ∀ h, path h.withArguments = path h) (text : String) (hs : List Harness) :
    normalize text (hs.map fun h => h.withModule (path h)) =
      ⟨(normalize text hs).harnesses.map fun h => h.withModule (path h),
        (normalize text hs).desyncs⟩ := by
  have hsort : (hs.map fun h => h.withModule (path h)).mergeSort Harness.rowLe =
      (hs.mergeSort Harness.rowLe).map fun h => h.withModule (path h) := by
    symm
    apply List.map_mergeSort
    intro h _ k _
    rfl
  have hready : ((hs.map fun h => h.withModule (path h)).mergeSort Harness.rowLe).map
      Harness.withArguments = ((hs.mergeSort Harness.rowLe).map Harness.withArguments).map
        fun h => h.withModule (path h) := by
    rw [hsort, List.map_map, List.map_map]
    apply List.map_congr_left
    intro h _
    simp only [Function.comp_apply, Harness.withArguments_withModule, hpath]
  have hfits : (Harness.fits (Text.trimmedLines text) ∘ fun h => h.withModule (path h)) =
      Harness.fits (Text.trimmedLines text) := by
    funext h
    exact Harness.fits_withModule
  have hdesync : (Harness.desync? (Text.trimmedLines text) ∘ fun h => h.withModule (path h)) =
      Harness.desync? (Text.trimmedLines text) := by
    funext h
    exact Harness.desync?_congr rfl
  rw [normalize, normalize, hready, List.filter_map, List.filterMap_map, hfits, hdesync]

/-! ## The steps together -/

/-- A strategy looks neither at arguments nor at modules. -/
@[simp] theorem ModulePaths.path?_withModule (strategy : ModulePaths) (root : Node) (h : Harness)
    (path : Option String) : strategy.path? root (h.withModule path) = strategy.path? root h := by
  cases strategy <;> rfl

/-- The later strategy counts. -/
theorem attachModules_attachModules (root : Node) (strategy strategy' : ModulePaths)
    (hs : List Harness) :
    attachModules root strategy' (attachModules root strategy hs) =
      attachModules root strategy' hs := by
  rw [attachModules_eq_map, attachModules_eq_map, attachModules_eq_map, List.map_map]
  apply List.map_congr_left
  intro h _
  rw [Function.comp_apply, ModulePaths.path?_withModule]
  rfl

/-- Modules can be attached before or after the normal form is made. -/
theorem normalize_attachModules (text : String) (root : Node) (strategy : ModulePaths)
    (hs : List Harness) :
    normalize text (attachModules root strategy hs) =
      ⟨attachModules root strategy (normalize text hs).harnesses, (normalize text hs).desyncs⟩ := by
  rw [attachModules_eq_map, attachModules_eq_map]
  exact normalize_map_withModule (strategy.path?_withArguments root) text hs

/-- Attaching and normalizing may be done in either order, and of each only the last time counts:
whatever the records are and wherever they come from. -/
theorem attach_normalize_exchange (text : String) (root : Node) (strategy strategy' : ModulePaths)
    (hs : List Harness) :
    normalize text (attachModules root strategy hs) =
        ⟨attachModules root strategy (normalize text hs).harnesses, (normalize text hs).desyncs⟩ ∧
      attachModules root strategy' (attachModules root strategy hs) =
        attachModules root strategy' hs ∧
      normalize text (normalize text hs).harnesses = ⟨(normalize text hs).harnesses, []⟩ :=
  ⟨normalize_attachModules text root strategy hs,
    attachModules_attachModules root strategy strategy' hs,
    normalize_of_isNormal (isNormal_normalize text hs)⟩

end ProofHarness
