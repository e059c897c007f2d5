import Mathlib.Data.List.Nodup
import ProofHarness.Module.Chain
import ProofHarness.Proofs.Syntax.Preorder
import ProofHarness.Proofs.Table

/-!
# The chains of modules

`withChains` lists the nodes of a forest with the names of the modules around each, by recursion on
the forest.  The walk over waiting nodes makes the same entries in another order
(`chainEntries_perm`); where the names of functions end at distinct places the order does not
matter, and the chain that is found for a function is the chain around it
(`getD_get?_moduleChains`).
-/

set_option autoImplicit false

namespace ProofHarness

open Syntax
open Text (Position)

/-! ## Nodes with the modules around them -/

mutual

/-- The nodes of a tree in preorder, each with the names of the modules around it, when the tree
lies in the given modules. -/
def Syntax.Node.withChains (chain : List String) : Node → List (Node × List String)
  | .mk kind here name children =>
    (.mk kind here name children, chain) ::
      withChainsAll (innerChain chain (.mk kind here name children)) children

/-- The nodes of some trees that lie in the given modules. -/
def Syntax.Node.withChainsAll (chain : List String) : List Node → List (Node × List String)
  | [] => []
  | n :: ns => Node.withChains chain n ++ withChainsAll chain ns

end

open Node (withChainsAll preorderAll)

/-- There are no nodes in an empty forest. -/
@[simp] theorem withChainsAll_nil (chain : List String) : withChainsAll chain [] = [] := by
  rw [withChainsAll]

/-- The nodes of a forest with the modules around them, tree by tree. -/
theorem withChainsAll_cons (chain : List String) (n : Node) (ns : List Node) :
    withChainsAll chain (n :: ns) =
      (n, chain) :: (withChainsAll (innerChain chain n) n.children ++ withChainsAll chain ns) := by
  cases n with
  | mk kind here name children =>
    rw [withChainsAll, Node.withChains, List.cons_append, Node.children]

/-- Without the chains this is the preorder. -/
theorem map_fst_withChainsAll (chain : List String) (ns : List Node) :
    (withChainsAll chain ns).map Prod.fst = preorderAll ns := by
  induction ns using Node.forestInduction generalizing chain with
  | nil => simp
  | cons n ns below beside =>
    rw [withChainsAll_cons, Node.preorderAll_cons, List.map_cons, List.map_append, below, beside]

/-- The trees themselves lie in the modules in which all of them lie. -/
theorem mem_withChainsAll_of_mem {n : Node} {ns : List Node} (h : n ∈ ns) (chain : List String) :
    (n, chain) ∈ withChainsAll chain ns := by
  induction ns with
  | nil => cases h
  | cons m ms ih =>
    rw [withChainsAll_cons, List.mem_cons, List.mem_append]
    rcases List.mem_cons.1 h with rfl | h
    · exact Or.inl rfl
    · exact Or.inr (Or.inr (ih h))

/-- What is around a node is the name of a module: one in which all trees lie, or one of theirs. -/
theorem mem_of_mem_withChainsAll {chain : List String} {ns : List Node}
    {e : Node × List String} (he : e ∈ withChainsAll chain ns) {s : String} (hs : s ∈ e.2) :
    s ∈ chain ∨ ∃ m ∈ preorderAll ns, m.isModule = true ∧ m.name.map Segment.text = some s := by
  induction ns using Node.forestInduction generalizing chain with
  | nil => simp at he
  | cons n ns below beside =>
    rw [withChainsAll_cons, List.mem_cons, List.mem_append] at he
    rw [Node.preorderAll_cons]
    rcases he with rfl | he | he
    · exact .inl hs
    · rcases below he with hinner | ⟨m, hm, hmodule⟩
      · unfold innerChain at hinner
        split at hinner
        · next hmodule =>
          cases hname : n.name with
          | none => exact .inl (by simpa [hname] using hinner)
          | some g =>
            rw [hname, List.mem_append, List.mem_singleton] at hinner
            rcases hinner with hs | rfl
            · exact .inl hs
            · exact .inr ⟨n, List.mem_cons_self, hmodule, by rw [hname]; rfl⟩
        · exact .inl hinner
      · exact .inr ⟨m, by simp [hm], hmodule⟩
    · rcases beside he with hs | ⟨m, hm, hmodule⟩
      · exact .inl hs
      · exact .inr ⟨m, by simp [hm], hmodule⟩

/-! ## The entries of the walk -/

/-- The entry for a node with the modules around it. -/
def chainEntry? (e : Node × List String) : Option (Position × List String) := chainOf? e.2 e.1

/-- Entries are made for the children of a node before those below them; put back in place they
are the entries for all that is below the node. -/
theorem filterMap_chainOf?_append_flatMap_perm (chain : List String) (ns : List Node) :
    (ns.filterMap (chainOf? chain) ++
        ns.flatMap fun n =>
          (withChainsAll (innerChain chain n) n.children).filterMap chainEntry?).Perm
      ((withChainsAll chain ns).filterMap chainEntry?) := by
  induction ns with
  | nil => simp
  | cons n ns ih =>
    have hrest := (List.perm_append_comm_assoc (ns.filterMap (chainOf? chain))
      ((withChainsAll (innerChain chain n) n.children).filterMap chainEntry?)
      (ns.flatMap fun n =>
        (withChainsAll (innerChain chain n) n.children).filterMap chainEntry?)).trans
          (ih.append_left _)
    rw [withChainsAll_cons, List.filterMap_cons, List.filterMap_cons, List.flatMap_cons,
      List.filterMap_append, chainEntry?]
    cases chainOf? chain n with
    | none => exact hrest
    | some entry => exact hrest.cons entry

/-- The walk makes the entries for the nodes below the waiting ones. -/
theorem chainEntries_perm (waiting : List (Node × List String)) :
    (chainEntries waiting).Perm
      (waiting.flatMap fun w => (withChainsAll w.2 w.1.children).filterMap chainEntry?) := by
  fun_induction chainEntries waiting with
  | case1 => simp
  | case2 n chain waiting ih =>
    rw [List.flatMap_append, List.flatMap_map] at ih
    rw [List.flatMap_cons]
    have hchildren : (n.children.reverse.filterMap (chainOf? chain)).Perm
        (n.children.filterMap (chainOf? chain)) :=
      (List.reverse_perm n.children).filterMap (chainOf? chain)
    refine (hchildren.append ih).trans ?_
    rw [← List.append_assoc]
    exact (filterMap_chainOf?_append_flatMap_perm chain n.children).append_right _

/-! ## Looking up a function -/

/-- The places at which the names of the functions below a node end. -/
def Syntax.Node.functionPlaces (root : Node) : List Position :=
  (root.descendants .function).filterMap fun f => f.name.map Segment.stop

/-- The place at which the name of a node ends, if the node is a function. -/
def functionPlace? (f : Node) : Option Position :=
  if f.isFunction then f.name.map Segment.stop else none

/-- The place at which the name of a function ends, with the modules around the function. -/
def placeWithChain? (e : Node × List String) : Option (Position × List String) :=
  (functionPlace? e.1).map fun place => (place, e.2)

/-- The functions below a node, by place, with the modules around each. -/
def functionChains (root : Node) : List (Position × List String) :=
  (withChainsAll [] root.children).filterMap placeWithChain?

/-- A function that is met on the way through the tree has an entry. -/
theorem mem_functionChains {root : Node} {e : Node × List String} {place : Position}
    (he : e ∈ withChainsAll [] root.children) (hplace : functionPlace? e.1 = some place) :
    (place, e.2) ∈ functionChains root := by
  refine List.mem_filterMap.2 ⟨e, he, ?_⟩
  rw [placeWithChain?, hplace, Option.map_some]

/-- The chain of a function holds names of modules of the tree. -/
theorem exists_module_of_mem_functionChains {root : Node} {entry : Position × List String}
    (hentry : entry ∈ functionChains root) {s : String} (hs : s ∈ entry.2) :
    ∃ m ∈ preorderAll root.children, m.isModule = true ∧ m.name.map Segment.text = some s := by
  obtain ⟨e, he, hplace⟩ := List.mem_filterMap.1 hentry
  obtain ⟨place, -, rfl⟩ := Option.map_eq_some_iff.1 hplace
  rcases mem_of_mem_withChainsAll he hs with hnil | hmodule
  · simp at hnil
  · exact hmodule

/-- The places of the functions in the order of the tree. -/
theorem functionPlaces_eq_filterMap (root : Node) :
    root.functionPlaces = (preorderAll root.children).filterMap functionPlace? := by
  rw [Node.functionPlaces, Node.descendants_eq_filter, List.filterMap_filter]
  rfl

/-- The keys of the functions with their modules are the places of the functions. -/
theorem map_fst_functionChains (root : Node) :
    (functionChains root).map Prod.fst = root.functionPlaces := by
  have hplace : ∀ e : Node × List String,
      (placeWithChain? e).map Prod.fst = functionPlace? e.1 := by
    intro e
    rw [placeWithChain?, Option.map_map]
    exact Option.map_id'
  rw [functionPlaces_eq_filterMap, ← map_fst_withChainsAll [], List.filterMap_map, functionChains,
    List.map_filterMap]
  exact List.filterMap_congr fun e _ => hplace e

/-- Only functions that lie in some module have entries. -/
theorem chainEntry?_eq_filter (e : Node × List String) :
    chainEntry? e = (placeWithChain? e).filter fun entry => !entry.2.isEmpty := by
  unfold chainEntry? chainOf? placeWithChain? functionPlace?
  cases e.1.isFunction with
  | false => rfl
  | true =>
    cases e.1.name with
    | none => simp
    | some g => cases e.2 <;> rfl

variable {root : Node}

/-- The loop with the stack comes to the functions in modules, in its own order. -/
theorem chainEntries_root_perm (root : Node) :
    (chainEntries [(root, [])]).Perm
      ((functionChains root).filter fun entry => !entry.2.isEmpty) := by
  have hperm := chainEntries_perm [(root, [])]
  rw [List.flatMap_singleton] at hperm
  rw [functionChains, List.filter_filterMap,
    ← List.filterMap_congr fun e _ => chainEntry?_eq_filter e]
  exact hperm

/-- The table of chains holds the chain of each function that lies in a module, if no two names of
functions end at one place. -/
theorem get?_moduleChains_eq_some_iff (distinct : root.functionPlaces.Nodup) {place : Position}
    {chain : List String} :
    Table.get? (moduleChains root) place = some chain ↔
      (place, chain) ∈ functionChains root ∧ chain ≠ [] := by
  have hperm := chainEntries_root_perm root
  have hkeys : ((chainEntries [(root, [])]).map Prod.fst).Nodup := by
    rw [(hperm.map Prod.fst).nodup_iff]
    rw [← map_fst_functionChains] at distinct
    exact distinct.sublist (List.filter_sublist.map Prod.fst)
  rw [moduleChains, Table.get?_foldl_put hkeys, Table.get?_nil, Option.or_none,
    Table.get?_eq_some_iff hkeys, hperm.mem_iff, List.mem_filter]
  simp

/-- The chain that is found for a function is the chain around it. -/
theorem getD_get?_moduleChains (distinct : root.functionPlaces.Nodup) {place : Position}
    {chain : List String} (hmem : (place, chain) ∈ functionChains root) :
    (Table.get? (moduleChains root) place).getD [] = chain := by
  have hkeys := distinct
  rw [← map_fst_functionChains] at hkeys
  cases hget : Table.get? (moduleChains root) place with
  | none =>
    by_contra hne
    rw [(get?_moduleChains_eq_some_iff distinct).2 ⟨hmem, Ne.symm hne⟩] at hget
    cases hget
  | some other =>
    have hother := ((get?_moduleChains_eq_some_iff distinct).1 hget).1
    have heq := List.inj_on_of_nodup_map hkeys hother hmem rfl
    exact congrArg Prod.snd heq

end ProofHarness
