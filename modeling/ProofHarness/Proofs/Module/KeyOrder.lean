import ProofHarness.Proofs.Module.Agreement
import ProofHarness.Proofs.Module.Ancestors

/-!
# The index by function names

The index has one entry for each name of a function that lies below a module with a name, and its
path is made of the names of all modules with such a function below them, in preorder.  The entries
stand in the order in which the first functions of their names come that lie in modules with names
(`indexedPaths_exact`): a module is met before those in it, and lists all that they list, so that
names come in with the outermost modules, in preorder.
-/

set_option autoImplicit false

namespace ProofHarness

open Syntax
open Node (preorderAll withChainsAll)
open Enclosure (addTo functionName? functionNames holder? holders invert namesIn ofTree)
open Table (addKeys)

/-! ## The modules of a name -/

/-- Whether a function of the given name lies below a node. -/
def Syntax.Node.holdsFunction (function : String) (n : Node) : Bool :=
  (preorderAll n.children).any fun f => functionName? f == some function

/-- The nodes below the root, in preorder, that have a function of the given name below them. -/
def Syntax.Node.holding (function : String) (root : Node) : List Node :=
  (preorderAll root.children).filter (Node.holdsFunction function)

/-- A node holds a function if its name is among those below the node. -/
theorem holdsFunction_eq_contains (function : String) (n : Node) :
    n.holdsFunction function = (functionNames n).contains function := by
  rw [Bool.eq_iff_iff, Node.holdsFunction, List.any_eq_true, List.contains_iff_mem,
    Enclosure.functionNames_eq_namesIn, namesIn, List.mem_filterMap]
  simp only [beq_iff_eq]

/-- The holders of a function are the named modules among the nodes that hold it. -/
theorem holders_eq_moduleNames (function : String) (root : Node) :
    holders function root.children = moduleNames (root.holding function) := by
  rw [holders, moduleNames, Node.holding, List.filterMap_filter]
  apply List.filterMap_congr
  intro n _
  rw [holder?, moduleName?, holdsFunction_eq_contains]
  cases n.isModule with
  | false => simp
  | true => simp

/-- The path of a name is made of the names of the modules with a function of that name below
them. -/
theorem get?_indexedPaths_ofTree {root : Node} {function path : String} :
    Table.get? (indexedPaths (ofTree root)) function = some path ↔
      (∃ m ∈ root.holding function, (moduleName? m).isSome = true) ∧
        path = joinModules (moduleNames (root.holding function)) := by
  rw [indexedPaths, Table.get?_map, Enclosure.get?_invert_ofTree, holders_eq_moduleNames,
    ← moduleNames_ne_nil_iff]
  cases moduleNames (root.holding function) with
  | nil => simp [unlessEmpty?]
  | cons m ms => simp [unlessEmpty?, eq_comm]

/-! ## The keys -/

/-- The keys of the index come in entry by entry. -/
theorem keys_foldl_invert (entries : List Enclosure) (index : List (String × List String)) :
    (entries.foldl (fun index e => e.functions.foldl (addTo e.module) index) index).map Prod.fst =
      addKeys (index.map Prod.fst) (entries.flatMap Enclosure.functions) := by
  induction entries generalizing index with
  | nil => rfl
  | cons e es ih =>
    have hentry : (e.functions.foldl (addTo e.module) index).map Prod.fst =
        addKeys (index.map Prod.fst) e.functions := Table.keys_foldl_alter _ e.functions index
    rw [List.foldl_cons, ih, hentry, List.flatMap_cons, Table.addKeys_append]

/-- The names of the functions below each module of a forest that has a name, module by module. -/
def namesByModule (ns : List Node) : List String :=
  (preorderAll ns).flatMap fun n => if (moduleName? n).isSome then namesIn n.children else []

/-- The names that modules list, tree by tree. -/
theorem namesByModule_cons (n : Node) (ns : List Node) :
    namesByModule (n :: ns) =
      (if (moduleName? n).isSome then namesIn n.children else []) ++
        (namesByModule n.children ++ namesByModule ns) := by
  rw [namesByModule, Node.preorderAll_cons, List.flatMap_cons, List.flatMap_append]
  rfl

/-- The keys come in the order in which modules list them. -/
theorem addKeys_functions_ofTree (keys : List String) (root : Node) :
    addKeys keys ((ofTree root).flatMap Enclosure.functions) =
      addKeys keys (namesByModule root.children) := by
  -- A module lists each function once; keys that come again add nothing.
  have hentries : ∀ (ms : List Node) (keys : List String),
      addKeys keys
          (((ms.filter fun m => m.kind == Kind.module).filterMap fun m =>
            m.name.map fun name => Enclosure.ofNames name.text (functionNames m)).flatMap
              Enclosure.functions) =
        addKeys keys
          (ms.flatMap fun n => if (moduleName? n).isSome then namesIn n.children else []) := by
    intro ms
    induction ms with
    | nil => intro keys; rfl
    | cons m ms ih =>
      intro keys
      rw [List.flatMap_cons, Table.addKeys_append, ← ih, List.filter_cons, moduleName?,
        Node.isModule]
      cases m.kind == Kind.module with
      | false => rfl
      | true =>
        cases hname : m.name with
        | none => simp [hname, addKeys]
        | some name =>
          simp only [if_true, Option.map_some, Option.isSome_some, List.filterMap_cons, hname,
            List.flatMap_cons, Table.addKeys_append, Enclosure.ofNames, Table.addKeys_eraseDups,
            Enclosure.functionNames_eq_namesIn]
  rw [ofTree, Node.descendants_eq_filter, namesByModule]
  exact hentries (preorderAll root.children) keys

/-! ## The order of the keys -/

/-- The name of a function that lies in some modules. -/
def enclosedName? (e : Node × List String) : Option String :=
  if e.2.isEmpty then none else functionName? e.1

/-- What a module holds comes in with the module, whatever modules there are in it. -/
theorem namesByModule_subset (ns : List Node) : namesByModule ns ⊆ namesIn ns := by
  induction ns using Node.forestInduction with
  | nil => simp [namesByModule]
  | cons n ns below beside =>
    rw [namesByModule_cons, namesIn_cons]
    refine List.append_subset.2 ⟨?_, List.append_subset.2 ⟨?_, ?_⟩⟩
    · split
      · exact List.Subset.trans (List.subset_append_left _ _) (List.subset_append_right _ _)
      · exact List.nil_subset _
    · exact List.Subset.trans below
        (List.Subset.trans (List.subset_append_left _ _) (List.subset_append_right _ _))
    · exact List.Subset.trans beside
        (List.Subset.trans (List.subset_append_right _ _) (List.subset_append_right _ _))

/-- In a forest that lies in a module all functions do. -/
theorem filterMap_enclosedName?_of_ne_nil {chain : List String} (hchain : chain ≠ [])
    (ns : List Node) : (withChainsAll chain ns).filterMap enclosedName? = namesIn ns := by
  induction ns using Node.forestInduction generalizing chain with
  | nil => simp [namesIn]
  | cons n ns below beside =>
    have hinner : innerChain chain n ≠ [] := by
      rw [innerChain_eq]
      simp [hchain]
    have hhere : enclosedName? (n, chain) = functionName? n := by
      rw [enclosedName?, if_neg (by simpa using hchain)]
    rw [withChainsAll_cons, namesIn_cons, List.filterMap_cons, List.filterMap_append, hhere,
      below hinner, beside hchain]
    cases functionName? n <;> rfl

/-- Names come in module by module in the order of the functions that lie in modules. -/
theorem addKeys_namesByModule (ns : List Node) (keys : List String) :
    addKeys keys (namesByModule ns) =
      addKeys keys ((withChainsAll [] ns).filterMap enclosedName?) := by
  induction ns using Node.forestInduction generalizing keys with
  | nil => simp [namesByModule]
  | cons n ns below beside =>
    have hhere : enclosedName? (n, []) = none := rfl
    rw [namesByModule_cons, withChainsAll_cons, List.filterMap_cons_none hhere,
      List.filterMap_append, Table.addKeys_append, Table.addKeys_append, Table.addKeys_append,
      beside]
    congr 1
    cases hmodule : moduleName? n with
    | none =>
      have hinner : innerChain [] n = [] := by rw [innerChain_eq, hmodule]; rfl
      rw [hinner, ← below]
      rfl
    | some module =>
      have hinner : innerChain [] n ≠ [] := by rw [innerChain_eq, hmodule]; simp
      rw [filterMap_enclosedName?_of_ne_nil hinner]
      -- The modules inside list nothing that this one does not list.
      apply Table.addKeys_of_subset
      intro function hfunction
      exact Table.mem_addKeys_iff.2 (.inr (namesByModule_subset n.children hfunction))

/-- The node with number `i` below the root, in preorder, is a function of the given name, and some
of the nodes around it below the root are modules with names. -/
def EnclosedAt (root : Node) (function : String) (i : Nat) : Prop :=
  ∃ f modules, (withChainsAll [] root.children)[i]? = some (f, modules) ∧
    functionName? f = some function ∧ modules ≠ []

/-- The first function of the given name that lies in a module with a name has number `i` below the
root, in preorder. -/
structure IsFirstEnclosed (root : Node) (function : String) (i : Nat) : Prop where
  enclosed : EnclosedAt root function i
  first : ∀ j < i, ¬EnclosedAt root function j

/-- A place of the walk has a name if a function with this name and a module around it is there. -/
theorem bind_enclosedName?_eq_some_iff {root : Node} {function : String} {i : Nat} :
    (withChainsAll [] root.children)[i]?.bind enclosedName? = some function ↔
      EnclosedAt root function i := by
  rw [Option.bind_eq_some_iff, EnclosedAt]
  constructor
  · rintro ⟨⟨f, modules⟩, he, hname⟩
    rw [enclosedName?] at hname
    split at hname
    · cases hname
    · next hne => exact ⟨f, modules, he, hname, by simpa using hne⟩
  · rintro ⟨f, modules, he, hname, hne⟩
    exact ⟨(f, modules), he, by rw [enclosedName?, if_neg (by simpa using hne), hname]⟩

/-- The first such place is the first in the order of the tree. -/
theorem isFirstEnclosed_of_isFirstAt {root : Node} {function : String} {i : Nat}
    (h : Table.IsFirstAt enclosedName? (withChainsAll [] root.children) function i) :
    IsFirstEnclosed root function i :=
  ⟨bind_enclosedName?_eq_some_iff.1 h.here,
    fun j hj hfirst => h.first j hj (bind_enclosedName?_eq_some_iff.2 hfirst)⟩

/-- The index has the keys of the inverted entries. -/
theorem map_fst_indexedPaths (entries : List Enclosure) :
    (indexedPaths entries).map Prod.fst = (invert entries).map Prod.fst := by
  rw [indexedPaths, List.map_map]
  rfl

/-- The keys of the index of a tree are the names of the functions that lie in modules with names,
in the order of the first of each name. -/
theorem keys_indexedPaths_ofTree (root : Node) :
    (indexedPaths (ofTree root)).map Prod.fst =
      addKeys [] ((withChainsAll [] root.children).filterMap enclosedName?) := by
  have hempty : ([] : List (String × List String)).map Prod.fst = [] := rfl
  rw [map_fst_indexedPaths, invert, keys_foldl_invert, hempty, addKeys_functions_ofTree,
    addKeys_namesByModule]

/-- The index of a tree has no name twice.  A name has an entry if some module below the root that
has a name has a function of that name below it, and its path is made of the names of all these
modules, one for each, in preorder.  The entries stand in the order in which the first functions of
their names come, in preorder, that lie in modules with names. -/
theorem indexedPaths_exact (root : Node) :
    ((indexedPaths (ofTree root)).map Prod.fst).Nodup ∧
      (∀ function path : String,
        Table.get? (indexedPaths (ofTree root)) function = some path ↔
          (∃ m ∈ root.holding function, (moduleName? m).isSome = true) ∧
            path = joinModules (moduleNames (root.holding function))) ∧
      ∃ places : List Nat,
        List.Forall₂ (IsFirstEnclosed root) ((indexedPaths (ofTree root)).map Prod.fst) places ∧
          places.Pairwise (· < ·) := by
  refine ⟨?_, fun _ _ => get?_indexedPaths_ofTree, ?_⟩
  · rw [keys_indexedPaths_ofTree]
    exact Table.nodup_addKeys List.nodup_nil _
  · obtain ⟨places, hplaces, hsorted, -⟩ :=
      Table.exists_places_addKeys enclosedName? (withChainsAll [] root.children)
    rw [keys_indexedPaths_ofTree]
    exact ⟨places, hplaces.imp fun _ _ => isFirstEnclosed_of_isFirstAt, hsorted⟩

example : indexedPaths (ofTree (Node.ofSource
    "fn g() {} mod a { mod b { fn f() {} fn f() {} } fn g() {} } mod a { fn f() {} }")) =
      [("f", "a::b::a"), ("g", "a")] := by
  decide +kernel

end ProofHarness
