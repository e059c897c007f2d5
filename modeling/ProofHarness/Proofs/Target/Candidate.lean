import ProofHarness.Proofs.Text.Join
import ProofHarness.Target

/-!
# Candidates

The qualified name of a harness is its bare name behind the names that qualify it, of which there
are two at most: that of its file, and the path of the modules around it (`toList_candidate`).  It
is the bare name itself exactly if nothing qualifies it.  As long as bare names hold no colon,
harnesses of one file have the same candidate exactly if their names and their modules are the same
(`candidate_eq_iff`).
-/

set_option autoImplicit false

namespace ProofHarness

/-- The module path of a harness, unless it is empty. -/
def filledPath? (module : Option String) : Option String := module.filter fun path => path != ""

/-- The names in front of the bare name of a harness. -/
def qualifiers (module : Option String) (file : String) : List String :=
  (fileModule? file).toList ++ (filledPath? module).toList

/-- Some names, each with a separator after it. -/
def lead (names : List String) : List Char :=
  (names.map String.toList).flatMap (· ++ pathSeparator.toList)

/-- The leads of two lists of names. -/
theorem lead_append (names names' : List String) :
    lead (names ++ names') = lead names ++ lead names' := by
  rw [lead, List.map_append, List.flatMap_append, lead, lead]

/-- One name with its separator. -/
theorem lead_singleton (name : String) : lead [name] = name.toList ++ pathSeparator.toList := by
  rw [lead, List.map_singleton, List.flatMap_singleton]

/-- There is no lead without names. -/
theorem lead_eq_nil_iff {names : List String} : lead names = [] ↔ names = [] := by
  cases names with
  | nil => simp [lead]
  | cons s names => simp [lead, pathSeparator]

/-- Modules are joined with the separator between them. -/
theorem toList_joinModules (names : List String) :
    (joinModules names).toList = Text.join pathSeparator.toList (names.map String.toList) := by
  rw [joinModules, Text.joined, String.toList_ofList]

/-- The separator is a colon twice. -/
theorem pathSeparator_toList : pathSeparator.toList = [':'] ++ [':'] := by decide

variable {name name' file : String} {module module' : Option String}

/-! ## The names in front -/

/-- The first attempt is the name with its modules in front. -/
theorem toList_candidate (name : String) (module : Option String) (file : String) :
    (qualify name module file).candidate.toList =
      lead (qualifiers module file) ++ name.toList := by
  have hcandidate : (qualify name module file).candidate =
      joinModules (qualifiers module file ++ [name]) := rfl
  rw [hcandidate, toList_joinModules, List.map_append, List.map_singleton,
    Text.join_append_singleton, lead]

/-- It is the name alone exactly if there are no modules. -/
theorem candidate_eq_name_iff :
    (qualify name module file).candidate = name ↔ qualifiers module file = [] := by
  rw [← String.toList_inj, toList_candidate, List.append_left_eq_self, lead_eq_nil_iff]

/-- A candidate that is qualified ends in a separator and the bare name. -/
theorem candidate_eq_append (h : qualifiers module file ≠ []) :
    (qualify name module file).candidate =
      joinModules (qualifiers module file) ++ pathSeparator ++ name := by
  have hne : (qualifiers module file).map String.toList ≠ [] := by simpa using h
  rw [← String.toList_inj, toList_candidate, lead, Text.flatMap_append_eq_join hne,
    String.toList_append, String.toList_append, toList_joinModules]

/-- Nothing qualifies a harness exactly if the stem of its file is of no use, and it is in no
module. -/
theorem qualifiers_eq_nil_iff :
    qualifiers module file = [] ↔
      (∀ stem, Disk.fileStem? file = some stem → stem = "" ∨ stem ∈ rootStems) ∧
        (module = none ∨ module = some "") := by
  have hfile : fileModule? file = none ↔
      ∀ stem, Disk.fileStem? file = some stem → stem = "" ∨ stem ∈ rootStems := by
    rw [fileModule?, Option.filter_eq_none_iff]
    apply forall₂_congr
    intro stem _
    simp [Decidable.or_iff_not_imp_left]
  have hmodule : filledPath? module = none ↔ module = none ∨ module = some "" := by
    cases module with
    | none => simp [filledPath?]
    | some path => simp [filledPath?]
  rw [qualifiers, List.append_eq_nil_iff, Option.toList_eq_nil_iff, Option.toList_eq_nil_iff,
    hfile, hmodule]

/-! ## Candidates of one file -/

/-- The lead of a module path tells the path. -/
theorem lead_toList_inj {path path' : Option String} :
    lead path.toList = lead path'.toList ↔ path = path' := by
  cases path with
  | none => cases path' <;> simp [lead, pathSeparator]
  | some s =>
    cases path' with
    | none => simp [lead, pathSeparator]
    | some s' =>
      rw [Option.toList_some, Option.toList_some, lead_singleton, lead_singleton,
        List.append_left_inj, String.toList_inj, Option.some_inj]

/-- Where names have no colons, the first attempt tells the name and the module path. -/
theorem candidate_eq_iff (hname : ':' ∉ name.toList) (hname' : ':' ∉ name'.toList) :
    (qualify name module file).candidate = (qualify name' module' file).candidate ↔
      name = name' ∧ filledPath? module = filledPath? module' := by
  rw [← String.toList_inj, toList_candidate, toList_candidate, lead, lead, pathSeparator_toList,
    Text.flatMap_append_inj hname hname', ← pathSeparator_toList, ← lead, ← lead, qualifiers,
    qualifiers, lead_append, lead_append, List.append_right_inj, lead_toList_inj, String.toList_inj,
    and_comm]

end ProofHarness
