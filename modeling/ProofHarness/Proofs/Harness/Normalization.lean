import ProofHarness.Harness.Normal
import ProofHarness.Proofs.Text.Row

/-!
# Normal forms

What normalizing leaves alone.  Whether a harness fits a text depends on its place and its line
only, so that neither its arguments nor its modules matter (`fits_congr`); harnesses that all fit
are only put into order and given their arguments (`normalize_of_fits`).  What is returned is in
normal form (`isNormal_normalize`), and a normal form is left as it is (`normalize_of_isNormal`).
-/

set_option autoImplicit false

namespace ProofHarness

namespace Harness

/-- The line that is found is the one with the number of the row. -/
theorem foundLine_trimmedLines (text : String) (h : Harness) :
    h.foundLine (Text.trimmedLines text) = Text.lineNumbered text h.stop.row := by
  rw [foundLine, Text.trimmedLines, Text.lineNumbered, List.getElem?_toArray, List.getElem?_map]
  cases (Text.lines text.toList)[h.stop.row]? <;> rfl

/-- The record with another module path. -/
def withModule (h : Harness) (path : Option String) : Harness := { h with module := path }

/-- The record without arguments and modules, as it is when it is found. -/
def asFound (h : Harness) : Harness := { h with arguments := .empty, module := none }

/-- Modules have no part in arguments. -/
@[simp] theorem withArguments_withModule (h : Harness) (path : Option String) :
    (h.withModule path).withArguments = h.withArguments.withModule path := rfl

variable {rows : Array String} {h k : Harness}

/-- The difference between a harness and a text is one of its name, its place and its line. -/
theorem desync?_congr (hk : h.asFound = k.asFound) : h.desync? rows = k.desync? rows := by
  simp only [asFound, mk.injEq] at hk
  obtain ⟨hname, hline, hstop, -⟩ := hk
  rw [desync?, desync?, fits, fits, toDesync, toDesync, foundLine, foundLine, hname, hline, hstop]

/-- Arguments and modules do not matter to whether a harness fits. -/
theorem fits_congr (hk : h.asFound = k.asFound) : h.fits rows = k.fits rows := by
  rw [Bool.eq_iff_iff, ← desync?_eq_none_iff, ← desync?_eq_none_iff, desync?_congr hk]

/-- Arguments have no part in fitting. -/
@[simp] theorem fits_withArguments : h.withArguments.fits rows = h.fits rows := fits_congr rfl

/-- Modules have no part in fitting. -/
@[simp] theorem fits_withModule {path : Option String} :
    (h.withModule path).fits rows = h.fits rows := fits_congr rfl

/-- Harnesses are ordered by their rows. -/
theorem rowLe_iff : rowLe h k = true ↔ h.stop.row ≤ k.stop.row := decide_eq_true_iff

/-- This order is transitive. -/
theorem rowLe_trans (h k l : Harness) (hhk : rowLe h k = true) (hkl : rowLe k l = true) :
    rowLe h l = true :=
  rowLe_iff.2 (Nat.le_trans (rowLe_iff.1 hhk) (rowLe_iff.1 hkl))

/-- It is total. -/
theorem rowLe_total (h k : Harness) : (rowLe h k || rowLe k h) = true := by
  rw [Bool.or_eq_true, rowLe_iff, rowLe_iff]
  exact Nat.le_total h.stop.row k.stop.row

end Harness

/-- All harnesses fit a text. -/
def AllFit (text : String) (hs : List Harness) : Prop :=
  ∀ h ∈ hs, h.fits (Text.trimmedLines text) = true

variable {text : String} {hs : List Harness}

/-- Harnesses that fit are put into order and given their arguments; none of them is set apart. -/
theorem normalize_of_fits (h : AllFit text hs) :
    normalize text hs = ⟨(hs.mergeSort Harness.rowLe).map Harness.withArguments, []⟩ := by
  have hready : ∀ k ∈ (hs.mergeSort Harness.rowLe).map Harness.withArguments,
      k.fits (Text.trimmedLines text) = true := by
    intro k hk
    obtain ⟨found, hfound, rfl⟩ := List.mem_map.1 hk
    rw [Harness.fits_withArguments]
    exact h found (List.mem_mergeSort.1 hfound)
  have hdesyncs : ∀ k ∈ (hs.mergeSort Harness.rowLe).map Harness.withArguments,
      k.desync? (Text.trimmedLines text) = none := by
    intro k hk
    exact Harness.desync?_eq_none_iff.2 (hready k hk)
  rw [normalize, List.filter_eq_self.2 hready, List.filterMap_eq_nil_iff.2 hdesyncs]

/-- What normalizing returns fits. -/
theorem allFit_normalize (text : String) (hs : List Harness) :
    AllFit text (normalize text hs).harnesses := by
  intro h hh
  exact (List.mem_filter.1 hh).2

/-- What normalizing returns was given to it, but for arguments. -/
theorem exists_of_mem_normalize {h : Harness} (hh : h ∈ (normalize text hs).harnesses) :
    ∃ k ∈ hs, h = k.withArguments := by
  obtain ⟨k, hk, rfl⟩ := List.mem_map.1 (List.mem_filter.1 hh).1
  exact ⟨k, List.mem_mergeSort.1 hk, rfl⟩

/-- No harness that fits is lost in normalizing. -/
theorem map_asFound_normalize_perm (h : AllFit text hs) :
    ((normalize text hs).harnesses.map Harness.asFound).Perm (hs.map Harness.asFound) := by
  rw [normalize_of_fits h, List.map_map]
  exact (List.mergeSort_perm hs Harness.rowLe).map Harness.asFound

/-! ## Normal forms -/

/-- Harnesses in the order of their rows that fit a text and have their arguments. -/
structure IsNormal (text : String) (hs : List Harness) : Prop where
  ordered : hs.Pairwise fun h k => Harness.rowLe h k
  fits : AllFit text hs
  arguments : ∀ h ∈ hs, h.withArguments = h

/-- What is brought into normal form is in normal form. -/
theorem isNormal_normalize (text : String) (hs : List Harness) :
    IsNormal text (normalize text hs).harnesses := by
  refine ⟨?_, allFit_normalize text hs, ?_⟩
  · have hsorted : (hs.mergeSort Harness.rowLe).Pairwise fun h k => Harness.rowLe h k :=
      List.pairwise_mergeSort Harness.rowLe_trans Harness.rowLe_total hs
    exact (List.pairwise_map.2 hsorted).filter _
  · intro h hh
    obtain ⟨k, -, rfl⟩ := exists_of_mem_normalize hh
    rfl

/-- Normalizing leaves a normal form as it is. -/
theorem normalize_of_isNormal (h : IsNormal text hs) : normalize text hs = ⟨hs, []⟩ := by
  have harguments : hs.map Harness.withArguments = hs.map id :=
    List.map_congr_left h.arguments
  rw [normalize_of_fits h.fits, List.mergeSort_of_pairwise h.ordered, harguments, List.map_id]

end ProofHarness
