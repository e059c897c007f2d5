import ProofHarness.Proofs.Module.Agreement
import ProofHarness.Proofs.Target.Candidate

/-!
# Telling harnesses apart

The candidate of a harness is one text, in which the names of its file, its modules and its function
follow each other.  Where these names are plain, that is, neither empty nor with a colon in them,
the modules around two harnesses of a tree are the same if their paths are (`modulePath?_inj`), so
that the candidates tell apart all that the names do (`candidates_distinguish`).
-/

set_option autoImplicit false

namespace ProofHarness

open Syntax
open Syntax.Node (preorderAll)

/-- A name that is neither empty nor has a colon in it. -/
def IsPlainName (s : String) : Prop := s ≠ "" ∧ ':' ∉ s.toList

instance (s : String) : Decidable (IsPlainName s) :=
  inferInstanceAs (Decidable (s ≠ "" ∧ ':' ∉ s.toList))

/-- The modules and the functions below the root of a tree have plain names if they have names. -/
def Syntax.Node.PlainlyNamed (root : Node) : Prop :=
  ∀ n ∈ preorderAll root.children, n.isModule = true ∨ n.isFunction = true →
    ∀ g ∈ n.name, IsPlainName g.text

instance (root : Node) : Decidable root.PlainlyNamed :=
  inferInstanceAs (Decidable (∀ n ∈ preorderAll root.children,
    n.isModule = true ∨ n.isFunction = true → ∀ g ∈ n.name, IsPlainName g.text))

/-- The qualified name under which a harness of a file is asked for. -/
def Harness.candidate (h : Harness) (file : String) : String :=
  (Target.ofHarness h file).qualified.candidate

/-! ## Paths of plain names -/

/-- Plain names are joined to a path that is not empty. -/
theorem joinModules_ne_empty {names : List String} (hne : names ≠ [])
    (h : ∀ s ∈ names, IsPlainName s) : joinModules names ≠ "" := by
  have hpieces : ∀ s ∈ names.map String.toList, s ≠ [] := by
    intro s hs
    obtain ⟨t, ht, rfl⟩ := List.mem_map.1 hs
    simpa using (h t ht).1
  have hjoin := Text.join_ne_nil (by simpa using hne) hpieces pathSeparator.toList
  rw [← toList_joinModules] at hjoin
  simpa using hjoin

/-- The path tells the names. -/
theorem joinModules_inj {names names' : List String} (hne : names ≠ []) (hne' : names' ≠ [])
    (h : ∀ s ∈ names, IsPlainName s) (h' : ∀ s ∈ names', IsPlainName s) :
    joinModules names = joinModules names' ↔ names = names' := by
  have hpieces : ∀ {names : List String}, (∀ s ∈ names, IsPlainName s) →
      ∀ s ∈ names.map String.toList, ':' ∉ s := by
    intro names hnames s hs
    obtain ⟨t, ht, rfl⟩ := List.mem_map.1 hs
    exact (hnames t ht).2
  refine ⟨fun hjoin => ?_, congrArg joinModules⟩
  rw [← String.toList_inj, toList_joinModules, toList_joinModules] at hjoin
  have hlists := Text.join_injective (by simpa using hne) (by simpa using hne') (hpieces h)
    (hpieces h') hjoin
  exact List.map_injective_iff.2 (fun _ _ => String.toList_inj.1) hlists

/-- The path of some modules says which they are. -/
theorem modulePath?_inj {modules modules' : List String} (h : ∀ s ∈ modules, IsPlainName s)
    (h' : ∀ s ∈ modules', IsPlainName s) :
    filledPath? (modulePath? modules) = filledPath? (modulePath? modules') ↔
      modules = modules' := by
  have hfilled : ∀ {names : List String}, names ≠ [] → (∀ s ∈ names, IsPlainName s) →
      filledPath? (modulePath? names) = some (joinModules names) := by
    intro names hne hnames
    simp [filledPath?, modulePath?, unlessEmpty?, hne, joinModules_ne_empty hne hnames]
  have hempty : filledPath? (modulePath? []) = none := rfl
  by_cases hne : modules = [] <;> by_cases hne' : modules' = []
  · simp [hne, hne']
  · rw [hne, hempty, hfilled hne' h']
    simp [eq_comm, hne']
  · rw [hne', hempty, hfilled hne h]
    simp [hne]
  · rw [hfilled hne h, hfilled hne' h', Option.some_inj, joinModules_inj hne hne' h h']

/-! ## Harnesses of one tree -/

/-- A harness of a tree with the modules around it. -/
theorem exists_chain_of_mem_attachModules {root : Node} (distinct : root.functionPlaces.Nodup)
    (plain : root.PlainlyNamed) {h : Harness}
    (hh : h ∈ attachModules root .ancestorChain (Harness.ofTree root)) :
    ∃ around, (h.stop, around) ∈ functionChains root ∧ h.module = modulePath? around ∧
      (∀ s ∈ around, IsPlainName s) ∧ ':' ∉ h.name.toList := by
  rw [attachModules_eq_map] at hh
  obtain ⟨found, hfound, rfl⟩ := List.mem_map.1 hh
  have hchain := (modulesAround_sublist distinct hfound).1
  refine ⟨modulesAround root found.stop, hchain, path?_ancestorChain distinct found, ?_, ?_⟩
  · intro s hs
    obtain ⟨m, hm, hmodule, hname⟩ := exists_module_of_mem_functionChains hchain hs
    obtain ⟨g, hg, rfl⟩ := Option.map_eq_some_iff.1 hname
    exact plain m hm (.inl hmodule) g hg
  · obtain ⟨f, hf, hfunction, g, hg, hof⟩ := Harness.exists_function_of_mem_ofTree hfound
    show ':' ∉ found.name.toList
    rw [hof.name]
    exact (plain f hf (.inr hfunction) g hg).2

/-- Two harnesses of a file whose names hold no colon have the same candidate exactly if their names
and their modules are the same.  In a tree in which all names are plain, these are the names of the
functions and the lists of the modules around them. -/
theorem candidates_distinguish (file : String) :
    (∀ h k : Harness, ':' ∉ h.name.toList → ':' ∉ k.name.toList →
        (h.candidate file = k.candidate file ↔
          h.name = k.name ∧ filledPath? h.module = filledPath? k.module)) ∧
      ∀ root : Node, root.functionPlaces.Nodup → root.PlainlyNamed →
        ∀ h ∈ attachModules root .ancestorChain (Harness.ofTree root),
          ∀ k ∈ attachModules root .ancestorChain (Harness.ofTree root),
            ∃ around around', (h.stop, around) ∈ functionChains root ∧
              (k.stop, around') ∈ functionChains root ∧
              (h.candidate file = k.candidate file ↔ h.name = k.name ∧ around = around') := by
  refine ⟨fun h k => candidate_eq_iff, ?_⟩
  intro root distinct plain h hh k hk
  obtain ⟨around, hchain, hmodule, haround, hname⟩ :=
    exists_chain_of_mem_attachModules distinct plain hh
  obtain ⟨around', hchain', hmodule', haround', hname'⟩ :=
    exists_chain_of_mem_attachModules distinct plain hk
  refine ⟨around, around', hchain, hchain', ?_⟩
  have hcandidate : h.candidate file = k.candidate file ↔
      h.name = k.name ∧ filledPath? h.module = filledPath? k.module := candidate_eq_iff hname hname'
  rw [hcandidate, hmodule, hmodule', modulePath?_inj haround haround']

/-- Two functions of one name, of which one lies in a module more than the other. -/
theorem candidates_distinguish_nested :
    let root :=
      Node.ofSource "mod a { #[kani::proof] fn f() {} mod b { #[kani::proof] fn f() {} } }"
    let hs := attachModules root .ancestorChain (Harness.ofTree root)
    let h := hs.headD default
    let k := hs.getLastD default
    let file := "src/buf.rs"
    (':' ∉ h.name.toList ∧ ':' ∉ k.name.toList ∧
        (h.candidate file = k.candidate file ↔
          h.name = k.name ∧ filledPath? h.module = filledPath? k.module)) ∧
      root.functionPlaces.Nodup ∧ root.PlainlyNamed ∧ h ∈ hs ∧ k ∈ hs ∧
      [h.candidate file, k.candidate file] = ["buf::a::f", "buf::a::b::f"] ∧
      ∃ around around', (h.stop, around) ∈ functionChains root ∧
        (k.stop, around') ∈ functionChains root ∧
        (h.candidate file = k.candidate file ↔ h.name = k.name ∧ around = around') := by
  intro root hs h k file
  -- One evaluation for all facts about the tree, which is read from the text only once.
  obtain ⟨hname, hname', distinct, plain, hh, hk, hcandidates⟩ :
      ':' ∉ h.name.toList ∧ ':' ∉ k.name.toList ∧ root.functionPlaces.Nodup ∧
        root.PlainlyNamed ∧ h ∈ hs ∧ k ∈ hs ∧
        [h.candidate file, k.candidate file] = ["buf::a::f", "buf::a::b::f"] := by
    decide +kernel
  obtain ⟨hrecords, htree⟩ := candidates_distinguish file
  exact ⟨⟨hname, hname', hrecords h k hname hname'⟩, distinct, plain, hh, hk, hcandidates,
    htree root distinct plain h hh k hk⟩

end ProofHarness
