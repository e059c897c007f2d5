import Mathlib.Algebra.GroupWithZero.Nat
import ProofHarness.Proofs.Module.KeyOrder

/-!
# Turning entries around without loss

The pairs of a function and a module that are in the index are those of the entries, each as often
(`pairs_invert_perm`): adding a module to a function adds this pair and leaves all others.  The
functions of the index come in the order in which the entries first list them, and the modules of
each in the order of the entries (`indexedPaths_inverts`).
-/

set_option autoImplicit false

namespace ProofHarness.Enclosure

variable {entries : List Enclosure} {index : List (String × List String)}
  {function module : String}

/-! ## Pairs -/

/-- The pairs of a function and one of its modules. -/
def pairs (index : List (String × List String)) : List (String × String) :=
  index.flatMap fun e => e.2.map fun module => (e.1, module)

/-- The pairs of a function and a module whose entry lists it. -/
def listedPairs (entries : List Enclosure) : List (String × String) :=
  entries.flatMap fun e => e.functions.map fun function => (function, e.module)

/-- Adding a module to a function adds this pair to the index. -/
theorem pairs_addTo_perm (module : String) (index : List (String × List String))
    (function : String) :
    (pairs (addTo module index function)).Perm (pairs index ++ [(function, module)]) := by
  rw [addTo]
  induction index with
  | nil => exact .refl _
  | cons e rest ih =>
    rw [Table.alter]
    split
    · next hkey =>
      have hpairs : pairs ((e.1, (some e.2).getD [] ++ [module]) :: rest) =
          (e.2.map fun m => (e.1, m)) ++ (function, module) :: pairs rest := by
        simp [pairs, hkey]
      rw [hpairs]
      exact List.perm_middle.trans (List.perm_append_singleton _ _).symm
    · rw [pairs, List.flatMap_cons, pairs, List.flatMap_cons, List.append_assoc]
      exact ih.append_left _

/-- An entry adds the pairs of its functions and its module. -/
theorem pairs_foldl_addTo_perm (module : String) (functions : List String)
    (index : List (String × List String)) :
    (pairs (functions.foldl (addTo module) index)).Perm
      (pairs index ++ functions.map fun function => (function, module)) := by
  induction functions generalizing index with
  | nil => simp
  | cons f fs ih =>
    have hstep := (pairs_addTo_perm module index f).append_right (fs.map fun g => (g, module))
    rw [List.append_assoc, List.singleton_append] at hstep
    rw [List.foldl_cons, List.map_cons]
    exact (ih (addTo module index f)).trans hstep

/-- Each entry adds the pairs of its module with its functions. -/
theorem pairs_foldl_invert_perm (entries : List Enclosure) (index : List (String × List String)) :
    (pairs (entries.foldl (fun index e => e.functions.foldl (addTo e.module) index) index)).Perm
      (pairs index ++ listedPairs entries) := by
  induction entries generalizing index with
  | nil => simp [listedPairs]
  | cons e es ih =>
    have hstep := (pairs_foldl_addTo_perm e.module e.functions index).append_right (listedPairs es)
    rw [List.append_assoc] at hstep
    rw [List.foldl_cons, listedPairs, List.flatMap_cons]
    exact (ih _).trans hstep

/-- The index has the pairs of the entries, each as often. -/
theorem pairs_invert_perm (entries : List Enclosure) :
    (pairs (invert entries)).Perm (listedPairs entries) :=
  pairs_foldl_invert_perm entries []

/-- The pairs of an index are counted key by key. -/
theorem length_pairs (index : List (String × List String)) :
    (pairs index).length = (index.map fun e => e.2.length).sum := by
  simp [pairs, List.length_flatMap]

/-- The pairs of entries are counted entry by entry. -/
theorem length_listedPairs (entries : List Enclosure) :
    (listedPairs entries).length = (entries.map fun e => e.functions.length).sum := by
  simp [listedPairs, List.length_flatMap]

/-! ## Functions and their modules -/

/-- The functions of the index come in entry by entry. -/
theorem keys_invert (entries : List Enclosure) :
    (invert entries).map Prod.fst = Table.addKeys [] (entries.flatMap functions) :=
  keys_foldl_invert entries []

/-- No function has two keys. -/
theorem nodup_keys_invert (entries : List Enclosure) : ((invert entries).map Prod.fst).Nodup := by
  rw [keys_invert]
  exact Table.nodup_addKeys List.nodup_nil _

/-- The keys are the functions of the entries. -/
theorem mem_keys_invert_iff : function ∈ (invert entries).map Prod.fst ↔
    ∃ e ∈ entries, function ∈ e.functions := by
  rw [keys_invert, Table.mem_addKeys_iff, List.mem_flatMap]
  simp

/-- Each function stands beside the modules of the entries that list it. -/
theorem snd_of_mem_invert (hdistinct : ∀ e ∈ entries, e.functions.Nodup)
    {e : String × List String} (he : e ∈ invert entries) : e.2 = listing e.1 entries := by
  have hget : Table.get? (invert entries) e.1 = some e.2 :=
    (Table.get?_eq_some_iff (nodup_keys_invert entries)).2 he
  rw [get?_invert hdistinct, unlessEmpty?] at hget
  split at hget
  · cases hget
  · exact (Option.some.inj hget).symm

/-- The index has as many modules in all as the entries have functions. -/
theorem sum_length_listing (hdistinct : ∀ e ∈ entries, e.functions.Nodup) :
    ((invert entries).map fun e => (listing e.1 entries).length).sum =
      (entries.map fun e => e.functions.length).sum := by
  have hmodules : ((invert entries).map fun e => (listing e.1 entries).length) =
      (invert entries).map fun e => e.2.length := by
    apply List.map_congr_left
    intro e he
    rw [snd_of_mem_invert hdistinct he]
  rw [hmodules, ← length_pairs, (pairs_invert_perm entries).length_eq, length_listedPairs]

/-- The index has each function that is listed once, in the order in which the entries first list
them.  Its path is made of the modules of exactly the entries that list it, in the order of the
entries, and of equal modules all are kept: there are as many in all paths together as there are
functions in all entries together. -/
theorem indexedPaths_inverts (hdistinct : ∀ e ∈ entries, e.functions.Nodup) :
    ((indexedPaths entries).map Prod.fst).Nodup ∧
      (∀ function, function ∈ (indexedPaths entries).map Prod.fst ↔
        ∃ e ∈ entries, function ∈ e.functions) ∧
      (∃ places : List Nat,
        List.Forall₂ (Table.IsFirstAt some (entries.flatMap functions))
            ((indexedPaths entries).map Prod.fst) places ∧
          places.Pairwise (· < ·)) ∧
      (∀ e ∈ indexedPaths entries, e.2 = joinModules (listing e.1 entries)) ∧
      ((indexedPaths entries).map fun e => (listing e.1 entries).length).sum =
        (entries.map fun e => e.functions.length).sum := by
  rw [map_fst_indexedPaths]
  refine ⟨nodup_keys_invert entries, fun _ => mem_keys_invert_iff, ?_, ?_, ?_⟩
  · obtain ⟨places, hplaces, hsorted, -⟩ :=
      Table.exists_places_addKeys some (entries.flatMap functions)
    rw [List.filterMap_some] at hplaces
    rw [keys_invert]
    exact ⟨places, hplaces, hsorted⟩
  · intro e he
    obtain ⟨e, hmem, rfl⟩ := List.mem_map.1 he
    rw [← snd_of_mem_invert hdistinct hmem]
  · rw [indexedPaths, List.map_map]
    exact sum_length_listing hdistinct

/-- Two modules of one name, one function that three entries list, and one that comes in late. -/
theorem indexedPaths_inverts_same_names :
    let entries : List Enclosure := [⟨"foo", ["h", "g"]⟩, ⟨"foo", ["h"]⟩, ⟨"bar", ["k", "g", "h"]⟩]
    (∀ e ∈ entries, e.functions.Nodup) ∧
      indexedPaths entries = [("h", "foo::foo::bar"), ("g", "foo::bar"), ("k", "bar")] ∧
      ((indexedPaths entries).map fun e => (listing e.1 entries).length).sum = 6 := by
  intro entries
  have hdistinct : ∀ e ∈ entries, e.functions.Nodup := by decide
  obtain ⟨-, -, -, -, hsum⟩ := indexedPaths_inverts hdistinct
  exact ⟨hdistinct, by decide, hsum⟩

end ProofHarness.Enclosure
