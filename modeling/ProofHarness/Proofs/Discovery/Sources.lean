import Mathlib.Data.List.Sort
import ProofHarness.Proofs.Discovery.Walk
import ProofHarness.Proofs.StableSort

/-!
# The sources below some roots

What is found below the roots is put in the order of the components of the paths, and of paths with
the same components the first one is kept.  The result is in strict order, and so it is known from
the places that are found (`IsListing.eq`): neither the order of the roots matters nor how often
they are given (`sources_exact`).
-/

set_option autoImplicit false

namespace ProofHarness.Discovery

open Disk

variable {disk : Disk} {root p q : String} {roots roots' paths paths' : List String}
  {names : List String}

/-! ## Leaving repeated paths out -/

/-- What is left of paths in order is in strict order. -/
theorem pairwise_dropAfter (h : ((p :: paths).map components).Pairwise (· ≤ ·)) :
    ((p :: dropAfter p paths).map components).Pairwise (· < ·) := by
  induction paths generalizing p with
  | nil => simp [dropAfter]
  | cons q qs ih =>
    simp only [List.map_cons, List.pairwise_cons, List.forall_mem_cons] at h
    obtain ⟨⟨hpq, hfirst⟩, hqs⟩ := h
    rw [dropAfter]
    split
    · exact ih (List.pairwise_cons.2 ⟨hfirst, hqs.2⟩)
    · next hdiffer =>
      have hlt : components p < components q :=
        lt_of_le_of_ne hpq fun heq => hdiffer (samePath_iff.2 heq)
      have hrest := ih (List.pairwise_cons.2 hqs)
      refine List.pairwise_cons.2 ⟨List.forall_mem_cons.2 ⟨hlt, ?_⟩, hrest⟩
      exact fun place hplace => hlt.trans ((List.pairwise_cons.1 hrest).1 place hplace)

/-- Of ordered paths no two with the same components are left. -/
theorem pairwise_dropRepeated (h : (paths.map components).Pairwise (· ≤ ·)) :
    ((dropRepeated paths).map components).Pairwise (· < ·) := by
  cases paths with
  | nil => exact .nil
  | cons p ps => exact pairwise_dropAfter h

/-- The first path that is accepted is left, if paths with the same components are accepted
alike. -/
theorem find?_dropAfter {accepts : String → Bool}
    (haccepts : ∀ p q, samePath p q = true → accepts p = accepts q) :
    (p :: dropAfter p paths).find? accepts = (p :: paths).find? accepts := by
  induction paths generalizing p with
  | nil => rfl
  | cons q qs ih =>
    rw [dropAfter]
    split
    · next hsame =>
      rw [ih, List.find?_cons, List.find?_cons, List.find?_cons, haccepts p q hsame]
      cases accepts q <;> rfl
    · rw [List.find?_cons, ih, ← List.find?_cons]

/-- What is looked for by its components is found as before. -/
theorem find?_dropRepeated {accepts : String → Bool}
    (haccepts : ∀ p q, samePath p q = true → accepts p = accepts q) :
    (dropRepeated paths).find? accepts = paths.find? accepts := by
  cases paths with
  | nil => rfl
  | cons p ps => exact find?_dropAfter haccepts

/-! ## Paths of one place -/

/-- Whether a path has the given components. -/
def isAt (place : List Component) (path : String) : Bool := components path == place

/-- A path is at a place if its components are the place. -/
theorem isAt_iff {place : List Component} : isAt place p = true ↔ components p = place := beq_iff_eq

/-- Paths with the same components are at the same places. -/
theorem isAt_congr (place : List Component) (p q : String) (h : samePath p q = true) :
    isAt place p = isAt place q := by
  rw [isAt, isAt, samePath_iff.1 h]

/-- A place is among the components of paths if some path is at it. -/
theorem mem_map_components_iff {place : List Component} :
    place ∈ paths.map components ↔ (paths.find? (isAt place)).isSome = true := by
  simp [isAt, List.find?_isSome]

/-- Of the paths with the same components the first one is listed. -/
theorem find?_dropRepeated_mergeSort (place : List Component) (paths : List String) :
    (dropRepeated (paths.mergeSort pathLe)).find? (isAt place) = paths.find? (isAt place) := by
  have halike : ∀ p q, isAt place p = true → isAt place q = true → pathLe p q = true := by
    intro p q hp hq
    rw [pathLe_iff, isAt_iff.1 hp, isAt_iff.1 hq]
  rw [find?_dropRepeated (isAt_congr place), ← List.head?_filter, ← List.head?_filter,
    filter_mergeSort pathLe_trans pathLe_total halike]

/-! ## Listings -/

/-- The paths are in strict order, and their components are exactly the given places. -/
structure IsListing (paths : List String) (places : List Component → Prop) : Prop where
  ascending : (paths.map components).Pairwise (· < ·)
  mem_iff : ∀ place, place ∈ paths.map components ↔ places place

/-- A listing is known from its places. -/
theorem IsListing.eq {places : List Component → Prop} (h : IsListing paths places)
    (h' : IsListing paths' places) : paths.map components = paths'.map components :=
  h.ascending.eq_of_mem_iff h'.ascending fun place =>
    (h.mem_iff place).trans (h'.mem_iff place).symm

/-- Sorting and dropping what comes again gives the list of the places. -/
theorem isListing_dropRepeated_mergeSort (paths : List String) :
    IsListing (dropRepeated (paths.mergeSort pathLe)) fun place =>
      place ∈ paths.map components := by
  constructor
  · apply pairwise_dropRepeated
    rw [List.pairwise_map]
    exact (List.pairwise_mergeSort pathLe_trans pathLe_total paths).imp fun h => pathLe_iff.1 h
  · intro place
    rw [mem_map_components_iff, find?_dropRepeated_mergeSort, ← mem_map_components_iff]

/-- Names lead from one of the roots to a source file at a place. -/
def IsFound (disk : Disk) (roots : List String) (place : List Component) : Prop :=
  ∃ root ∈ roots, ∃ names, Finds disk root names ∧ place = placeBelow root names

/-- The places of the sources below a root are those of the files that are found. -/
theorem mem_map_components_sourcesBelow_iff (hdisk : disk.WellNamed) {place : List Component} :
    place ∈ (sourcesBelow disk root).map components ↔
      ∃ names, Finds disk root names ∧ place = placeBelow root names := by
  simp only [List.mem_map, mem_sourcesBelow_iff_finds hdisk]
  constructor
  · rintro ⟨_, ⟨names, hfinds, rfl⟩, rfl⟩
    exact ⟨names, hfinds, components_foldl_pathIn (hfinds.file.isEntryName hdisk) root⟩
  · rintro ⟨names, hfinds, rfl⟩
    exact ⟨_, ⟨names, hfinds, rfl⟩, components_foldl_pathIn (hfinds.file.isEntryName hdisk) root⟩

/-- The sources below some roots are the places that are found there. -/
theorem isListing_sources (hdisk : disk.WellNamed) (roots : List String) :
    IsListing (sources disk roots) (IsFound disk roots) := by
  have hlisting := isListing_dropRepeated_mergeSort (roots.flatMap (sourcesBelow disk))
  refine ⟨hlisting.ascending, fun place => (hlisting.mem_iff place).trans ?_⟩
  simp only [List.map_flatMap, List.mem_flatMap, mem_map_components_sourcesBelow_iff hdisk, IsFound]

/-- A root that cannot be looked up adds nothing. -/
theorem sources_cons_of_error {e : FileError} (hroot : disk.lookup root = .error e) :
    sources disk (root :: roots) = sources disk roots := by
  have hnone : sourcesBelow disk root = [] := by rw [sourcesBelow, hroot]
  rw [sources, sources, List.flatMap_cons, hnone, List.nil_append]

/-- The sources below some roots are in strict order, and their places are those to which names lead
from a root through directories that are entered, the last component having the extension `rs`.  So
it does not matter in which order the roots are given and how often, the sources below two lists of
roots are those below either, and a root that is not there has none. -/
theorem sources_exact (hdisk : disk.WellNamed) (roots roots' : List String) :
    IsListing (sources disk roots) (IsFound disk roots) ∧
      ((∀ root, root ∈ roots ↔ root ∈ roots') →
        (sources disk roots).map components = (sources disk roots').map components) ∧
      IsListing (sources disk (roots ++ roots')) (fun place =>
        place ∈ (sources disk roots).map components ∨
          place ∈ (sources disk roots').map components) ∧
      ∀ root e, disk.lookup root = .error e →
        sources disk (root :: roots) = sources disk roots := by
  have hlisting := isListing_sources hdisk roots
  have hlisting' := isListing_sources hdisk roots'
  refine ⟨hlisting, ?_, ⟨(isListing_sources hdisk _).ascending, ?_⟩,
    fun root e => sources_cons_of_error⟩
  · intro hroots
    have hplaces : IsFound disk roots = IsFound disk roots' := by
      funext place
      simp only [IsFound, hroots]
    rw [hplaces] at hlisting
    exact hlisting.eq hlisting'
  · intro place
    rw [(isListing_sources hdisk _).mem_iff, hlisting.mem_iff, hlisting'.mem_iff]
    simp only [IsFound, List.mem_append, or_and_right, exists_or]

/-- A root that would not be entered below another one, directories and a file whose names look like
those of sources, and roots in another order, one of them twice. -/
theorem sources_exact_overlapping :
    let disk : Disk := ⟨[("", .directory
      [(".git", .directory [("a.rs", .file .empty)]), ("target", .directory
        [("b.rs", .file .empty), ("target", .directory [("c.rs", .file .empty)])]),
        ("x.rs", .directory [(".rs", .file .empty), ("d.rs", .file .empty)])])]⟩
    let roots := [".", "target"]
    let roots' := ["target", ".", "target"]
    disk.WellNamed ∧ sources disk roots = ["./x.rs/d.rs", "target/b.rs"] ∧
      IsListing (sources disk roots) (IsFound disk roots) ∧
      (∀ root, root ∈ roots ↔ root ∈ roots') ∧
      (sources disk roots).map components = (sources disk roots').map components ∧
      disk.lookup "nowhere" = .error .missing ∧
      sources disk ("nowhere" :: roots) = sources disk roots := by
  intro disk roots roots'
  have hdisk : disk.WellNamed := by decide
  have hwalk : roots.flatMap (sourcesBelow disk) = ["./x.rs/d.rs", "target/b.rs"] := by
    decide +kernel
  have hsources : sources disk roots = ["./x.rs/d.rs", "target/b.rs"] := by
    rw [sources, hwalk, List.mergeSort_of_pairwise (by decide)]
    decide
  have hroots : ∀ root, root ∈ roots ↔ root ∈ roots' := by
    intro root
    grind
  have hnowhere : disk.lookup "nowhere" = .error .missing := rfl
  obtain ⟨hlisting, hsame, -, hmissing⟩ := sources_exact hdisk roots roots'
  exact ⟨hdisk, hsources, hlisting, hroots, hsame hroots, hnowhere, hmissing _ _ hnowhere⟩

end ProofHarness.Discovery
