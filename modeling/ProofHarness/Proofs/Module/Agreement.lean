import Mathlib.Data.List.Forall2
import ProofHarness.Proofs.Harness.Extraction
import ProofHarness.Proofs.Module.Attachment
import ProofHarness.Proofs.Module.Chain
import ProofHarness.Proofs.Module.Index
import ProofHarness.Scan

/-!
# Both strategies side by side

The modules around a function are among the modules with a function of its name below them, and in
the same order: on the way down the tree each module around the function is met before what it
holds, and holds the function (`exists_chain_eq_append`).  If no other function has the name there
are no further such modules.  So the two strategies give the same scan but for the module paths, and
they differ in a path only where functions share a name.
-/

set_option autoImplicit false

namespace ProofHarness

open Syntax
open Text (Position)
open Node (preorderAll withChainsAll)
open Enclosure (functionName? functionNames holder? holders namesIn)

/-! ## The chain among the holders -/

/-- The function names of a forest, tree by tree. -/
theorem namesIn_cons (n : Node) (ns : List Node) :
    namesIn (n :: ns) = (functionName? n).toList ++ (namesIn n.children ++ namesIn ns) := by
  rw [namesIn, Node.preorderAll_cons, List.filterMap_cons, List.filterMap_append]
  cases functionName? n <;> rfl

/-- The modules with a function of the name below them, tree by tree. -/
theorem holders_cons (function : String) (n : Node) (ns : List Node) :
    holders function (n :: ns) =
      (holder? function n).toList ++ (holders function n.children ++ holders function ns) := by
  rw [holders, Node.preorderAll_cons, List.filterMap_cons, List.filterMap_append]
  cases holder? function n <;> rfl

/-- A node without such a function below it is none of them. -/
theorem holder?_eq_none {function : String} {n : Node} (h : function ∉ namesIn n.children) :
    holder? function n = none := by
  rw [holder?, Enclosure.functionNames_eq_namesIn]
  simp [h]

/-- Where there is no function of a name nothing holds one. -/
theorem holders_eq_nil {function : String} {ns : List Node} (h : function ∉ namesIn ns) :
    holders function ns = [] := by
  induction ns using Node.forestInduction with
  | nil => simp [holders]
  | cons n ns below beside =>
    rw [namesIn_cons, List.mem_append, List.mem_append, not_or, not_or] at h
    obtain ⟨-, hbelow, hbeside⟩ := h
    rw [holders_cons, holder?_eq_none hbelow, below hbelow, beside hbeside]
    rfl

/-- Around what lies below a node there is one module more than around the node itself if the node
is a module with a name; it then holds what lies below it. -/
theorem innerChain_eq_append {function : String} {n : Node} (h : function ∈ namesIn n.children)
    (outer : List String) : innerChain outer n = outer ++ (holder? function n).toList := by
  have hcontains : (functionNames n).contains function = true := by
    rw [Enclosure.functionNames_eq_namesIn, List.contains_iff_mem]
    exact h
  rw [innerChain, holder?, hcontains, Bool.and_true]
  cases n.isModule with
  | false => simp
  | true => cases n.name <;> simp

/-- The names at the places of a forest are among its function names. -/
theorem mem_namesIn_of_mem_withChainsAll {outer : List String} {ns : List Node}
    {e : Node × List String} (he : e ∈ withChainsAll outer ns) {function : String}
    (hname : functionName? e.1 = some function) : function ∈ namesIn ns := by
  rw [namesIn, ← map_fst_withChainsAll outer]
  exact List.mem_filterMap.2 ⟨e.1, List.mem_map_of_mem he, hname⟩

/-- The modules around a function are, in order, among those that hold a function of its name, and
are all of them if no other function has the name. -/
theorem exists_chain_eq_append {function : String} {e : Node × List String}
    (hname : functionName? e.1 = some function) {outer : List String} {ns : List Node}
    (he : e ∈ withChainsAll outer ns) :
    ∃ inner, e.2 = outer ++ inner ∧ inner.Sublist (holders function ns) ∧
      ((namesIn ns).count function = 1 → inner = holders function ns) := by
  induction ns using Node.forestInduction generalizing outer with
  | nil => simp at he
  | cons n ns below beside =>
    rw [holders_cons, namesIn_cons, List.count_append, List.count_append]
    rw [withChainsAll_cons, List.mem_cons, List.mem_append] at he
    rcases he with rfl | he | he
    · -- The function is the first tree: no other one is below it or beside it.
      refine ⟨[], by simp, List.nil_sublist _, ?_⟩
      intro hcount
      rw [hname, Option.toList_some, List.count_singleton_self] at hcount
      have hbelow : function ∉ namesIn n.children := List.count_eq_zero.1 (by omega)
      have hbeside : function ∉ namesIn ns := List.count_eq_zero.1 (by omega)
      rw [holder?_eq_none hbelow, holders_eq_nil hbelow, holders_eq_nil hbeside]
      rfl
    · -- The function is below the first tree, which holds it if it is a module.
      have hmem := mem_namesIn_of_mem_withChainsAll he hname
      obtain ⟨inner, hinner, hsublist, hunique⟩ := below he
      rw [innerChain_eq_append hmem, List.append_assoc] at hinner
      refine ⟨(holder? function n).toList ++ inner, hinner, ?_, ?_⟩
      · exact (hsublist.trans (List.sublist_append_left _ _)).append_left _
      · intro hcount
        have hpos := List.count_pos_iff.2 hmem
        have hbeside : function ∉ namesIn ns := List.count_eq_zero.1 (by omega)
        rw [hunique (by omega), holders_eq_nil hbeside, List.append_nil]
    · -- The function is beside the first tree, which then has none of its name.
      have hmem := mem_namesIn_of_mem_withChainsAll he hname
      obtain ⟨inner, hinner, hsublist, hunique⟩ := beside he
      refine ⟨inner, hinner, ?_, ?_⟩
      · exact (hsublist.trans (List.sublist_append_right _ _)).trans
          (List.sublist_append_right _ _)
      · intro hcount
        have hpos := List.count_pos_iff.2 hmem
        have hbelow : function ∉ namesIn n.children := List.count_eq_zero.1 (by omega)
        rw [hunique (by omega), holder?_eq_none hbelow, holders_eq_nil hbelow]
        rfl

/-! ## The module names of a harness -/

/-- The names of the modules that are listed for a function name. -/
def modulesListed (root : Node) (function : String) : List String :=
  (Table.get? (Enclosure.invert (Enclosure.ofTree root)) function).getD []

/-- The names of the modules around the function whose name ends at a place. -/
def modulesAround (root : Node) (place : Position) : List String :=
  (Table.get? (moduleChains root) place).getD []

/-- The path made of some module names, if there are any. -/
def modulePath? (modules : List String) : Option String :=
  (unlessEmpty? modules).map joinModules

variable {root : Node}

/-- The modules that are listed for a name are the modules that hold it. -/
theorem modulesListed_eq_holders (root : Node) (function : String) :
    modulesListed root function = holders function root.children := by
  rw [modulesListed, Enclosure.get?_invert_ofTree, getD_unlessEmpty?]

/-- By name, a harness gets the path of the modules that are listed for its name. -/
theorem path?_reverseIndex (root : Node) (h : Harness) :
    ModulePaths.reverseIndex.path? root h = modulePath? (modulesListed root h.name) := by
  rw [ModulePaths.path?, indexedPaths, Table.get?_map, modulesListed_eq_holders,
    Enclosure.get?_invert_ofTree, modulePath?]

/-- By place, it gets the path of the modules around its function. -/
theorem path?_ancestorChain (distinct : root.functionPlaces.Nodup) (h : Harness) :
    ModulePaths.ancestorChain.path? root h = modulePath? (modulesAround root h.stop) := by
  rw [ModulePaths.path?, chainPaths, Table.get?_map, modulePath?, modulesAround]
  cases hget : Table.get? (moduleChains root) h.stop with
  | none => rfl
  | some chain =>
    have hne := ((get?_moduleChains_eq_some_iff distinct).1 hget).2
    simp [unlessEmpty?, hne]

/-- No module is around a child of the root. -/
theorem modulesAround_eq_nil (distinct : root.functionPlaces.Nodup) {f : Node}
    (hf : f ∈ root.children) {place : Position} (hplace : functionPlace? f = some place) :
    modulesAround root place = [] :=
  getD_get?_moduleChains distinct (mem_functionChains (mem_withChainsAll_of_mem hf []) hplace)

/-- For a harness of the tree the modules around it, from the outermost to the innermost, are among
those listed for its name, and are all of them if no other function has the name. -/
theorem modulesAround_sublist (distinct : root.functionPlaces.Nodup) {h : Harness}
    (hh : h ∈ Harness.ofTree root) :
    (h.stop, modulesAround root h.stop) ∈ functionChains root ∧
      (modulesAround root h.stop).Sublist (modulesListed root h.name) ∧
      ((functionNames root).count h.name = 1 →
        modulesAround root h.stop = modulesListed root h.name) := by
  obtain ⟨f, hf, hfunction, g, hg, hfound⟩ := Harness.exists_function_of_mem_ofTree hh
  rw [← map_fst_withChainsAll []] at hf
  obtain ⟨e, he, rfl⟩ := List.mem_map.1 hf
  have hname : functionName? e.1 = some h.name := by
    rw [functionName?, hfunction, if_pos rfl, hg, Option.map_some, hfound.name]
  have hplace : functionPlace? e.1 = some h.stop := by
    rw [functionPlace?, hfunction, if_pos rfl, hg, Option.map_some, hfound.stop]
  have hchain : (h.stop, e.2) ∈ functionChains root := mem_functionChains he hplace
  obtain ⟨inner, hinner, hsublist, hunique⟩ := exists_chain_eq_append hname he
  rw [List.nil_append] at hinner
  rw [modulesAround, getD_get?_moduleChains distinct hchain, modulesListed_eq_holders,
    Enclosure.functionNames_eq_namesIn]
  refine ⟨hchain, ?_⟩
  rw [hinner]
  exact ⟨hsublist, hunique⟩

/-! ## Two scans of one tree -/

/-- A scan of a tree is the normal form of its harnesses with their module paths set. -/
theorem scan_ofTree_eq (root : Node) (text : String) (strategy : ModulePaths) :
    Scan.ofTree root text strategy =
      ⟨none, (normalize text (Harness.ofTree root)).harnesses.map fun h =>
        h.withModule (strategy.path? root h), (normalize text (Harness.ofTree root)).desyncs⟩ := by
  rw [Scan.ofTree, attachModules_eq_map,
    normalize_map_withModule (strategy.path?_withArguments root), Scan.ofNormalized]

/-- How what is known of a harness by the name of its function and what is known of it by its place
go together. -/
structure AgreeOn (root : Node) (byName byPlace : Harness) : Prop where
  same : byName.withModule none = byPlace.withModule none
  listed : byName.module = modulePath? (modulesListed root byName.name)
  around : byPlace.module = modulePath? (modulesAround root byPlace.stop)
  chain : (byPlace.stop, modulesAround root byPlace.stop) ∈ functionChains root
  sublist : (modulesAround root byPlace.stop).Sublist (modulesListed root byName.name)
  isSome : byPlace.module.isSome = true → byName.module.isSome = true
  unique : (functionNames root).count byName.name = 1 → byName.module = byPlace.module
  topLevel : ∀ f ∈ root.children, functionPlace? f = some byPlace.stop → byPlace.module = none

/-- A harness of the tree with its two module paths. -/
theorem agreeOn_withModule (distinct : root.functionPlaces.Nodup) {h : Harness}
    (hh : h ∈ Harness.ofTree root) :
    AgreeOn root (h.withArguments.withModule (ModulePaths.reverseIndex.path? root h))
      (h.withArguments.withModule (ModulePaths.ancestorChain.path? root h)) := by
  obtain ⟨hchain, hsublist, hunique⟩ := modulesAround_sublist distinct hh
  have hlisted := path?_reverseIndex root h
  have haround := path?_ancestorChain distinct h
  refine ⟨rfl, hlisted, haround, hchain, hsublist, ?_, ?_, ?_⟩
  · show (ModulePaths.ancestorChain.path? root h).isSome = true →
      (ModulePaths.reverseIndex.path? root h).isSome = true
    rw [hlisted, haround, modulePath?, modulePath?, Option.isSome_map, Option.isSome_map]
    cases haround : modulesAround root h.stop with
    | nil => simp [unlessEmpty?]
    | cons m ms =>
      have hne : modulesListed root h.name ≠ [] := by
        intro hnil
        rw [haround, hnil] at hsublist
        cases hsublist
      simp [unlessEmpty?, hne]
  · intro hcount
    show ModulePaths.reverseIndex.path? root h = ModulePaths.ancestorChain.path? root h
    rw [hlisted, haround, hunique hcount]
  · intro f hf hplace
    have hnil : modulesAround root h.stop = [] := modulesAround_eq_nil distinct hf hplace
    show ModulePaths.ancestorChain.path? root h = none
    rw [haround, hnil]
    rfl

/-- The two strategies give the same differences and, one for one, the same harnesses but for the
module paths; the modules around a harness are, in order, among those listed for its name, and where
no other function has that name the paths are the same. -/
theorem scans_agree (root : Node) (text : String) (distinct : root.functionPlaces.Nodup) :
    (Scan.ofTree root text .reverseIndex).desyncs =
        (Scan.ofTree root text .ancestorChain).desyncs ∧
      List.Forall₂ (AgreeOn root) (Scan.ofTree root text .reverseIndex).harnesses
        (Scan.ofTree root text .ancestorChain).harnesses := by
  rw [scan_ofTree_eq, scan_ofTree_eq]
  refine ⟨rfl, ?_⟩
  rw [List.forall₂_map_left_iff, List.forall₂_map_right_iff, List.forall₂_same]
  intro h hh
  obtain ⟨k, hk, rfl⟩ := exists_of_mem_normalize hh
  rw [ModulePaths.path?_withArguments, ModulePaths.path?_withArguments]
  exact agreeOn_withModule distinct hk

/-- Two functions of one name in different modules.  By the name alone each harness has all three
modules, and by its place it has those around it. -/
theorem scans_agree_shared_name :
    let text := "mod a { #[kani::proof] fn f() {} }\nmod b { mod c { #[kani::proof] fn f() {} } }"
    let root := Node.ofSource text
    let told (s : Scan) := (s.harnesses.map fun h => (h.name, h.stop.row, h.module), s.desyncs)
    root.functionPlaces.Nodup ∧
      told (Scan.ofTree root text .reverseIndex) =
        ([("f", 0, some "a::b::c"), ("f", 1, some "a::b::c")], []) ∧
      told (Scan.ofTree root text .ancestorChain) =
        ([("f", 0, some "a"), ("f", 1, some "b::c")], []) ∧
      (Scan.ofTree root text .reverseIndex).desyncs =
        (Scan.ofTree root text .ancestorChain).desyncs ∧
      List.Forall₂ (AgreeOn root) (Scan.ofTree root text .reverseIndex).harnesses
        (Scan.ofTree root text .ancestorChain).harnesses := by
  intro text root told
  have distinct : root.functionPlaces.Nodup := by
    rw [functionPlaces_eq_filterMap]
    decide +kernel
  -- The harnesses are found in the order of their rows, so that sorting changes nothing.
  have hscan : ∀ strategy : ModulePaths,
      (attachModules root strategy (Harness.ofTree root)).Pairwise (Harness.rowLe · ·) →
      Scan.ofTree root text strategy =
        let ready := (attachModules root strategy (Harness.ofTree root)).map Harness.withArguments
        ⟨none, ready.filter (Harness.fits (Text.trimmedLines text)),
          ready.filterMap (Harness.desync? (Text.trimmedLines text))⟩ := by
    intro strategy hordered
    rw [Scan.ofTree, normalize, List.mergeSort_of_pairwise hordered]
    rfl
  refine ⟨distinct, ?_, ?_, scans_agree root text distinct⟩
  · rw [hscan .reverseIndex (by decide +kernel)]
    decide +kernel
  · rw [hscan .ancestorChain (by decide +kernel)]
    decide +kernel

end ProofHarness
