import ProofHarness.Proofs.Module.Chain
import ProofHarness.Syntax.Source

/-!
# The modules around a function

A node lies below others, its ancestors, from the outermost to the innermost (`LiesBelow`).  Each
function of a tree has one entry in the table of paths if some of its ancestors below the root are
modules with names, and the path is made of the names of these, in their order
(`chainPaths_exact`).  The walk that fills the table carries with each waiting node the names of the
modules on the way to it; what it carries to a node is what the ancestors of the node say
(`mem_withChainsAll_iff`), whatever else lies between them.
-/

set_option autoImplicit false

namespace ProofHarness

open Syntax
open Text (Position)
open Node (withChainsAll)

/-- A node lies in a forest, below the given nodes from the outermost to the innermost. -/
inductive Syntax.Node.LiesBelow : List Node → List Node → Node → Prop
  | here {ns : List Node} {n : Node} (hn : n ∈ ns) : LiesBelow ns [] n
  | inside {ns ancestors : List Node} {m n : Node} (hm : m ∈ ns)
      (hn : LiesBelow m.children ancestors n) : LiesBelow ns (m :: ancestors) n

open Node (LiesBelow)

/-- The name of a node, if it is a module. -/
def moduleName? (n : Node) : Option String :=
  if n.isModule then n.name.map Segment.text else none

/-- The names of those of some nodes that are modules with names. -/
def moduleNames (ns : List Node) : List String := ns.filterMap moduleName?

/-- The names of modules, node by node. -/
theorem moduleNames_cons (n : Node) (ns : List Node) :
    moduleNames (n :: ns) = (moduleName? n).toList ++ moduleNames ns := by
  rw [moduleNames, List.filterMap_cons]
  cases moduleName? n <;> rfl

/-- There are names exactly if some node is a module with a name. -/
theorem moduleNames_ne_nil_iff {ns : List Node} :
    moduleNames ns ≠ [] ↔ ∃ m ∈ ns, (moduleName? m).isSome = true := by
  rw [moduleNames, ne_eq, List.filterMap_eq_nil_iff]
  simp [Option.isSome_iff_ne_none]

/-! ## What is carried to a node -/

/-- A node adds its name to the chain if it is a module with a name. -/
theorem innerChain_eq (outer : List String) (n : Node) :
    innerChain outer n = outer ++ (moduleName? n).toList := by
  rw [innerChain, moduleName?]
  cases n.isModule with
  | false => simp
  | true => cases n.name <;> simp

/-- What lies in a forest is its first tree, lies below the root of this tree, or lies in the rest
of the forest. -/
theorem liesBelow_cons_iff {n f : Node} {ns ancestors : List Node} :
    LiesBelow (n :: ns) ancestors f ↔
      (ancestors = [] ∧ f = n) ∨
        (∃ inner, ancestors = n :: inner ∧ LiesBelow n.children inner f) ∨
        LiesBelow ns ancestors f := by
  constructor
  · intro h
    cases h with
    | here hf =>
      rcases List.mem_cons.1 hf with rfl | hf
      · exact .inl ⟨rfl, rfl⟩
      · exact .inr (.inr (.here hf))
    | inside hm hf =>
      rcases List.mem_cons.1 hm with rfl | hm
      · exact .inr (.inl ⟨_, rfl, hf⟩)
      · exact .inr (.inr (.inside hm hf))
  · rintro (⟨rfl, rfl⟩ | ⟨inner, rfl, hf⟩ | hf)
    · exact .here List.mem_cons_self
    · exact .inside List.mem_cons_self hf
    · cases hf with
      | here hf => exact .here (List.mem_cons_of_mem n hf)
      | inside hm hf => exact .inside (List.mem_cons_of_mem n hm) hf

/-- The names that are carried to a node of a forest are those of the modules among its ancestors,
after those of the modules in which the whole forest lies. -/
theorem mem_withChainsAll_iff {f : Node} {outer chain : List String} {ns : List Node} :
    (f, chain) ∈ withChainsAll outer ns ↔
      ∃ ancestors, LiesBelow ns ancestors f ∧ chain = outer ++ moduleNames ancestors := by
  induction ns using Node.forestInduction generalizing outer with
  | nil =>
    rw [withChainsAll_nil]
    constructor
    · intro h
      cases h
    · rintro ⟨ancestors, hf, -⟩
      cases hf with
      | here hf => cases hf
      | inside hm _ => cases hm
  | cons n ns below beside =>
    rw [withChainsAll_cons, List.mem_cons, List.mem_append, below, beside, innerChain_eq,
      Prod.mk.injEq]
    constructor
    · rintro (⟨rfl, rfl⟩ | ⟨inner, hf, rfl⟩ | ⟨ancestors, hf, rfl⟩)
      · exact ⟨[], .here List.mem_cons_self, (List.append_nil chain).symm⟩
      · refine ⟨n :: inner, .inside List.mem_cons_self hf, ?_⟩
        rw [moduleNames_cons, List.append_assoc]
      · exact ⟨ancestors, liesBelow_cons_iff.2 (.inr (.inr hf)), rfl⟩
    · rintro ⟨ancestors, hf, rfl⟩
      rcases liesBelow_cons_iff.1 hf with ⟨rfl, rfl⟩ | ⟨inner, rfl, hinner⟩ | hrest
      · exact .inl ⟨rfl, List.append_nil outer⟩
      · refine .inr (.inl ⟨inner, hinner, ?_⟩)
        rw [moduleNames_cons, List.append_assoc]
      · exact .inr (.inr ⟨ancestors, hrest, rfl⟩)

/-- The functions of a tree by place, each with the modules among its ancestors below the root. -/
theorem mem_functionChains_iff {root : Node} {place : Position} {chain : List String} :
    (place, chain) ∈ functionChains root ↔
      ∃ f ancestors, LiesBelow root.children ancestors f ∧ functionPlace? f = some place ∧
        chain = moduleNames ancestors := by
  constructor
  · intro h
    obtain ⟨⟨f, chain'⟩, he, hentry⟩ := List.mem_filterMap.1 h
    obtain ⟨place', hplace, heq⟩ := Option.map_eq_some_iff.1 hentry
    obtain ⟨rfl, rfl⟩ := Prod.mk.inj heq
    obtain ⟨ancestors, hf, hchain⟩ := mem_withChainsAll_iff.1 he
    exact ⟨f, ancestors, hf, hplace, hchain⟩
  · rintro ⟨f, ancestors, hf, hplace, rfl⟩
    exact mem_functionChains (mem_withChainsAll_iff.2 ⟨ancestors, hf, rfl⟩) hplace

/-! ## The table of paths -/

/-- The entries have the places of the functions in modules. -/
theorem map_fst_chainPaths (root : Node) :
    (chainPaths root).map Prod.fst = (moduleChains root).map Prod.fst := by
  rw [chainPaths, List.map_map]
  rfl

/-- No place has two entries. -/
theorem nodup_keys_chainPaths (root : Node) : ((chainPaths root).map Prod.fst).Nodup := by
  have hempty : (([] : List (Position × List String)).map Prod.fst).Nodup := List.nodup_nil
  rw [map_fst_chainPaths, moduleChains]
  exact Table.nodup_keys_foldl_put hempty _

/-- Where the names of functions end at distinct places, the table of paths has one entry for each
function that has modules with names among its ancestors below the root, and no other: at the place
after the name of the function, the names of these modules from the outermost to the innermost. -/
theorem chainPaths_exact (root : Node) (distinct : root.functionPlaces.Nodup) :
    ((chainPaths root).map Prod.fst).Nodup ∧
      ∀ (place : Position) (path : String),
        Table.get? (chainPaths root) place = some path ↔
          ∃ f ancestors, LiesBelow root.children ancestors f ∧
            f.isFunction = true ∧ f.name.map Segment.stop = some place ∧
            (∃ m ∈ ancestors, (moduleName? m).isSome = true) ∧
            path = joinModules (moduleNames ancestors) := by
  refine ⟨nodup_keys_chainPaths root, ?_⟩
  intro place path
  have hplace : ∀ f : Node, functionPlace? f = some place ↔
      f.isFunction = true ∧ f.name.map Segment.stop = some place := by
    intro f
    rw [functionPlace?]
    cases f.isFunction <;> simp
  rw [chainPaths, Table.get?_map, Option.map_eq_some_iff]
  simp only [get?_moduleChains_eq_some_iff distinct, mem_functionChains_iff]
  constructor
  · rintro ⟨chain, ⟨⟨f, ancestors, hf, hfplace, rfl⟩, hne⟩, rfl⟩
    obtain ⟨hfunction, hstop⟩ := (hplace f).1 hfplace
    exact ⟨f, ancestors, hf, hfunction, hstop, moduleNames_ne_nil_iff.1 hne, rfl⟩
  · rintro ⟨f, ancestors, hf, hfunction, hstop, hmodule, rfl⟩
    exact ⟨moduleNames ancestors, ⟨⟨f, ancestors, hf, (hplace f).2 ⟨hfunction, hstop⟩, rfl⟩,
      moduleNames_ne_nil_iff.2 hmodule⟩, rfl⟩

/-- A module in a function in a module, a function beside it, and one outside of all modules. -/
theorem chainPaths_exact_nested :
    let root := Node.ofSource "mod a { fn f() { mod b { fn f() {} } } }\nfn g() {}"
    root.functionPlaces.Nodup ∧
      Table.get? (chainPaths root) ⟨0, 29⟩ = some "a::b" ∧
        ∃ f ancestors, LiesBelow root.children ancestors f ∧
          f.isFunction = true ∧ f.name.map Segment.stop = some ⟨0, 29⟩ ∧
          (∃ m ∈ ancestors, (moduleName? m).isSome = true) ∧
          "a::b" = joinModules (moduleNames ancestors) := by
  intro root
  have distinct : root.functionPlaces.Nodup := by
    rw [functionPlaces_eq_filterMap]
    decide +kernel
  have hpath : Table.get? (chainPaths root) ⟨0, 29⟩ = some "a::b" := by
    decide +kernel
  exact ⟨distinct, hpath, ((chainPaths_exact root distinct).2 ⟨0, 29⟩ "a::b").1 hpath⟩

end ProofHarness
