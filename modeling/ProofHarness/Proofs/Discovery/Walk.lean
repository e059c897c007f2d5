import ProofHarness.Discovery
import ProofHarness.Proofs.Disk.Tree

/-!
# The walk below a root

The walk below a root comes to the files to which names lead from it, except through directories
that are not entered (`mem_sourcesIn_iff`).  Where the entries of directories have proper names, a
file that it comes to is found or not by the last component of its place
(`mem_sourcesBelow_iff_finds`).
-/

set_option autoImplicit false

namespace ProofHarness.Discovery

open Disk Disk.Entry

variable {disk : Disk} {root path p : String} {roots : List String} {names : List String}

/-! ## The walk -/

/-- A directory of this name is entered below a root. -/
def IsEntered (name : String) : Prop := name ≠ "target" ∧ name ≠ ".git" ∧ name ≠ ".cargo"

/-- Directories are entered unless their names are on the list. -/
theorem contains_skippedNames_eq_false_iff {name : String} :
    skippedNames.contains name = false ↔ IsEntered name := by
  simp [skippedNames, IsEntered]

/-- Of the entries of a directory the walk leaves those directories out that are not entered. -/
theorem mem_sourcesAmong_iff {entries : List (String × Entry)} :
    p ∈ sourcesAmong path entries ↔
      ∃ e ∈ entries, ((∃ inner, e.2 = .directory inner) → IsEntered e.1) ∧
        p ∈ sourcesIn (pathIn path e.1) e.2 := by
  induction entries with
  | nil => simp [sourcesAmong]
  | cons e rest ih =>
    have hfirst : p ∈ sourcesAmong path (e :: rest) ↔
        (((∃ inner, e.2 = .directory inner) → IsEntered e.1) ∧
          p ∈ sourcesIn (pathIn path e.1) e.2) ∨ p ∈ sourcesAmong path rest := by
      obtain ⟨name, entry⟩ := e
      cases entry with
      | file bytes => simp [sourcesAmong]
      | directory inner =>
        rw [sourcesAmong, List.mem_append, ← contains_skippedNames_eq_false_iff]
        cases skippedNames.contains name <;> simp [sourcesIn]
    rw [hfirst, ih]
    simp

/-- The walk comes to the files to which names lead through directories that are entered. -/
theorem mem_sourcesIn_iff {e : Entry} :
    p ∈ sourcesIn path e ↔
      ∃ names bytes, e.Leads names (.file bytes) ∧ (∀ n ∈ names.dropLast, IsEntered n) ∧
        isSource p = true ∧ p = names.foldl pathIn path := by
  -- On the tree. The last name is that of the file, and a file need not be entered.
  induction e using treeInduction generalizing path with
  | file bytes =>
    rw [sourcesIn]
    constructor
    · intro hp
      split at hp
      · next hsource =>
        obtain rfl := List.mem_singleton.1 hp
        exact ⟨[], bytes, .here _, by simp, hsource, rfl⟩
      · cases hp
    · rintro ⟨names, found, hleads, -, hsource, rfl⟩
      obtain ⟨rfl, -⟩ := leads_file_iff.1 hleads
      rw [List.foldl_nil] at hsource ⊢
      rw [if_pos hsource]
      exact List.mem_singleton_self path
  | directory entries ih =>
    rw [sourcesIn, mem_sourcesAmong_iff]
    constructor
    · rintro ⟨⟨name, inner⟩, hmem, hentered, hp⟩
      obtain ⟨names, bytes, hleads, hnames, hsource, rfl⟩ := (ih _ hmem).1 hp
      refine ⟨name :: names, bytes, .inside hmem hleads, ?_, hsource, rfl⟩
      cases names with
      | nil => simp
      | cons n ns =>
        -- Names go on inside of it, so it is a directory, and it was entered.
        have hdirectory : ∃ inside, inner = .directory inside := by
          cases hleads
          exact ⟨_, rfl⟩
        exact List.forall_mem_cons.2 ⟨hentered hdirectory, hnames⟩
    · rintro ⟨names, bytes, hleads, hnames, hsource, rfl⟩
      cases hleads with
      | inside hmem hleads =>
        next name inner names =>
        refine ⟨(name, inner), hmem, ?_, (ih _ hmem).2 ⟨names, bytes, hleads, ?_, hsource, rfl⟩⟩
        · rintro ⟨inside, rfl⟩
          cases hleads
          exact hnames name List.mem_cons_self
        · intro n hn
          apply hnames
          cases names with
          | nil => cases hn
          | cons m ms => exact List.mem_cons_of_mem _ hn

/-- The sources below a root are the files with the ending of sources, below directories that are
entered. -/
theorem mem_sourcesBelow_iff :
    p ∈ sourcesBelow disk root ↔
      ∃ names, disk.HasFile root names ∧ (∀ n ∈ names.dropLast, IsEntered n) ∧
        isSource p = true ∧ p = names.foldl pathIn root := by
  rw [sourcesBelow]
  constructor
  · intro hp
    split at hp
    · next entry hlookup =>
      obtain ⟨names, bytes, hleads, hrest⟩ := mem_sourcesIn_iff.1 hp
      exact ⟨names, ⟨entry, bytes, hlookup, hleads⟩, hrest⟩
    · cases hp
  · rintro ⟨names, ⟨entry, bytes, hlookup, hleads⟩, hrest⟩
    rw [hlookup]
    exact mem_sourcesIn_iff.2 ⟨names, bytes, hleads, hrest⟩

/-- Names lead from a root to a source file, through directories that are entered. -/
structure Finds (disk : Disk) (root : String) (names : List String) : Prop where
  file : disk.HasFile root names
  entered : ∀ n ∈ names.dropLast, IsEntered n
  extension : ∃ stem ≠ [], (placeBelow root names).getLast? = some (.name (stem ++ ".rs".toList))

/-- A path belongs to a source if its last component has a stem and the ending. -/
theorem isSource_iff : isSource path = true ↔
    ∃ stem ≠ [], (components path).getLast? = some (.name (stem ++ ".rs".toList)) := by
  rw [isSource, beq_iff_eq, extension?, Option.bind_eq_some_iff]
  simp only [fileName?_eq_some_iff, Option.map_eq_some_iff]
  constructor
  · rintro ⟨name, hname, after, hafter, hrs⟩
    obtain rfl : after = "rs".toList := by rw [← hrs, String.toList_ofList]
    obtain ⟨-, stem, hstem, rfl⟩ := snd_splitName_eq_some_iff.1 hafter
    exact ⟨stem, hstem, hname⟩
  · rintro ⟨stem, hstem, hname⟩
    exact ⟨_, hname, "rs".toList, snd_splitName_eq_some_iff.2 ⟨by decide, stem, hstem, rfl⟩,
      String.ofList_toList⟩

/-- The paths below a root are those of the places that are found, each written as the walk writes
it. -/
theorem mem_sourcesBelow_iff_finds (hdisk : disk.WellNamed) :
    p ∈ sourcesBelow disk root ↔ ∃ names, Finds disk root names ∧ p = names.foldl pathIn root := by
  rw [mem_sourcesBelow_iff]
  constructor
  · rintro ⟨names, hfile, hentered, hsource, rfl⟩
    rw [isSource_iff, components_foldl_pathIn (hfile.isEntryName hdisk)] at hsource
    exact ⟨names, ⟨hfile, hentered, hsource⟩, rfl⟩
  · rintro ⟨names, ⟨hfile, hentered, hextension⟩, rfl⟩
    rw [← components_foldl_pathIn (hfile.isEntryName hdisk), ← isSource_iff] at hextension
    exact ⟨names, hfile, hentered, hextension, rfl⟩

end ProofHarness.Discovery
