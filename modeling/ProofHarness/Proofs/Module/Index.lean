import ProofHarness.Module.Index
import ProofHarness.Proofs.Syntax.Preorder
import ProofHarness.Proofs.Table

/-!
# The modules of a function name

Turning entries around loses nothing: the modules of a function name are those of the entries that
list it, in the order of the entries (`get?_invert`).  For the entries of a tree these are, in
preorder, the modules with a function of that name below them (`get?_invert_ofTree`).
-/

set_option autoImplicit false

namespace ProofHarness

open Syntax

/-- A list, unless it is empty. -/
def unlessEmpty? {α : Type} (l : List α) : Option (List α) := if l.isEmpty then none else some l

/-- A list is empty where it is absent. -/
@[simp] theorem getD_unlessEmpty? {α : Type} (l : List α) : (unlessEmpty? l).getD [] = l := by
  cases l <;> rfl

/-- A list with an element is there. -/
@[simp] theorem unlessEmpty?_append_singleton {α : Type} (l : List α) (a : α) :
    unlessEmpty? (l ++ [a]) = some (l ++ [a]) := by
  cases l <;> rfl

namespace Enclosure

/-! ## Turning entries around -/

/-- The modules of the entries that list a function name. -/
def listing (function : String) (entries : List Enclosure) : List String :=
  (entries.filter fun e => e.functions.contains function).map Enclosure.module

/-- One entry adds its module to each function that it lists, if it lists none twice. -/
theorem get?_foldl_addTo {functions : List String} (hdistinct : functions.Nodup) (module : String)
    (index : List (String × List String)) (function : String) :
    Table.get? (functions.foldl (addTo module) index) function =
      if functions.contains function then
        some ((Table.get? index function).getD [] ++ [module])
      else Table.get? index function := by
  induction functions generalizing index with
  | nil => rfl
  | cons f fs ih =>
    obtain ⟨hf, hfs⟩ := List.nodup_cons.1 hdistinct
    rw [List.foldl_cons, ih hfs, addTo, Table.get?_alter, List.contains_cons]
    by_cases h : f = function
    · subst h
      simp [hf]
    · simp [h, Ne.symm h]

/-- Further entries add the modules of those that list a function name. -/
theorem get?_foldl_invert {entries : List Enclosure} (hdistinct : ∀ e ∈ entries, e.functions.Nodup)
    {index : List (String × List String)} {function : String} {known : List String}
    (hknown : Table.get? index function = unlessEmpty? known) :
    Table.get? (entries.foldl (fun index e => e.functions.foldl (addTo e.module) index) index)
        function = unlessEmpty? (known ++ listing function entries) := by
  induction entries generalizing index known with
  | nil => simpa [listing] using hknown
  | cons e es ih =>
    obtain ⟨he, hes⟩ := List.forall_mem_cons.1 hdistinct
    have hstep := get?_foldl_addTo he e.module index function
    rw [hknown, getD_unlessEmpty?] at hstep
    rw [List.foldl_cons]
    cases hlist : e.functions.contains function with
    | true =>
      rw [hlist, if_pos rfl, ← unlessEmpty?_append_singleton] at hstep
      have hrest := ih hes hstep
      rw [List.append_assoc, List.singleton_append] at hrest
      simpa only [listing, List.filter_cons, hlist, if_true, List.map_cons] using hrest
    | false =>
      rw [hlist] at hstep
      have hrest := ih hes (hstep.trans (if_neg (by simp)))
      simpa only [listing, List.filter_cons, hlist, Bool.false_eq_true, if_false] using hrest

/-- The modules of a function name are those of the entries that list it, in the order of the
entries; a name that is listed nowhere has no entry. -/
theorem get?_invert {entries : List Enclosure} (hdistinct : ∀ e ∈ entries, e.functions.Nodup)
    (function : String) :
    Table.get? (invert entries) function = unlessEmpty? (listing function entries) := by
  have hempty : Table.get? ([] : List (String × List String)) function = unlessEmpty? [] := rfl
  exact get?_foldl_invert hdistinct hempty

/-! ## The entries of a tree -/

/-- The name of a node, if it is a function. -/
def functionName? (f : Node) : Option String :=
  if f.isFunction then f.name.map Segment.text else none

/-- The names of the functions in a forest. -/
def namesIn (ns : List Node) : List String := (Node.preorderAll ns).filterMap functionName?

/-- The names of the functions below a node, by the loop and by recursion. -/
theorem functionNames_eq_namesIn (n : Node) : functionNames n = namesIn n.children := by
  rw [functionNames, Node.descendants_eq_filter, List.filterMap_filter]
  rfl

/-- The name of a node, if it is a module with a function of the given name below it. -/
def holder? (function : String) (n : Node) : Option String :=
  if n.isModule && (functionNames n).contains function then n.name.map Segment.text else none

/-- The names of the modules in a forest with a function of the given name below them. -/
def holders (function : String) (ns : List Node) : List String :=
  (Node.preorderAll ns).filterMap (holder? function)

/-- Of equal function names only the first is kept. -/
theorem nodup_eraseDups (functions : List String) : functions.eraseDups.Nodup := by
  match functions with
  | [] => simp
  | f :: fs =>
    rw [List.eraseDups_cons, List.nodup_cons]
    refine ⟨?_, nodup_eraseDups (fs.filter fun g => !(g == f))⟩
    simp [List.mem_eraseDups]
termination_by functions.length
decreasing_by
  have hle := List.length_filter_le (fun g => !(g == f)) fs
  rw [List.length_cons]
  omega

/-- No entry of a tree lists a function name twice. -/
theorem nodup_functions_of_mem_ofTree {root : Node} {e : Enclosure} (he : e ∈ ofTree root) :
    e.functions.Nodup := by
  obtain ⟨m, -, hm⟩ := List.mem_filterMap.1 he
  obtain ⟨g, -, rfl⟩ := Option.map_eq_some_iff.1 hm
  exact nodup_eraseDups _

/-- The entries of a tree that list a function name are those of the modules with such a function
below them. -/
theorem listing_ofTree (function : String) (root : Node) :
    listing function (ofTree root) = holders function root.children := by
  rw [listing, ofTree, Node.descendants_eq_filter, List.filterMap_filter, List.filter_filterMap,
    List.map_filterMap, holders]
  apply List.filterMap_congr
  intro m _
  rw [holder?, Node.isModule]
  cases m.kind == Kind.module with
  | false => rfl
  | true =>
    cases m.name with
    | none => simp
    | some g =>
      have hcontains : (functionNames m).eraseDups.contains function =
          (functionNames m).contains function := by
        rw [Bool.eq_iff_iff, List.contains_iff_mem, List.contains_iff_mem, List.mem_eraseDups]
      simp only [Option.map_some, ofNames, Option.filter_some, hcontains,
        Bool.true_and, if_true]
      split <;> rfl

/-- The modules that are found for a function name are those with such a function below them, in
preorder. -/
theorem get?_invert_ofTree (root : Node) (function : String) :
    Table.get? (invert (ofTree root)) function = unlessEmpty? (holders function root.children) := by
  rw [get?_invert fun _ he => nodup_functions_of_mem_ofTree he, listing_ofTree]

end Enclosure

end ProofHarness
