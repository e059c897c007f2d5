import Mathlib.Data.List.Forall2
import Mathlib.Data.List.TakeWhile
import ProofHarness.Harness.Extraction
import ProofHarness.Proofs.Syntax.Preorder

/-!
# Which functions are harnesses

A sibling is marked if an attribute that marks a proof stands between the function before it and
itself (`IsMarked`).  The harnesses of a tree are, one for one and in order, about the marked
functions with names among the children of its nodes, the nodes being taken in preorder: nothing is
lost, found twice, or taken for another function.
-/

set_option autoImplicit false

namespace ProofHarness.Harness

open Syntax

/-! ## Marked functions -/

/-- Whether some sibling before the one with number `j` marks a proof, with no function between the
two. -/
def IsMarked (siblings : List Node) (j : Nat) : Prop :=
  ∃ k < j, siblings[k]?.any Node.marksProof = true ∧
    ∀ i < j, k < i → siblings[i]?.any Node.isFunction = false

instance (siblings : List Node) (j : Nat) : Decidable (IsMarked siblings j) :=
  inferInstanceAs (Decidable (∃ k < j, siblings[k]?.any Node.marksProof = true ∧
    ∀ i < j, k < i → siblings[i]?.any Node.isFunction = false))

/-- The sibling with number `j` if it is a function with a name and marked. -/
def markedAt? (siblings : List Node) (j : Nat) : Option Node :=
  siblings[j]?.filter fun f => f.isFunction && f.name.isSome && decide (IsMarked siblings j)

/-- The function that is found marked at a place stands there, has a name and is marked. -/
theorem markedAt?_eq_some_iff {siblings : List Node} {j : Nat} {f : Node} :
    markedAt? siblings j = some f ↔
      siblings[j]? = some f ∧ f.isFunction = true ∧ f.name.isSome = true ∧
        IsMarked siblings j := by
  rw [markedAt?, Option.filter_eq_some_iff]
  simp [and_assoc]

/-- The marked functions among siblings, from left to right. -/
def markedFunctions (siblings : List Node) : List Node :=
  (List.range siblings.length).filterMap (markedAt? siblings)

/-- The harness is about the function with the given name, and neither arguments nor modules are
known of it yet. -/
structure FoundFor (h : Harness) (g : Segment) : Prop where
  name : h.name = g.text
  line : h.line = Text.trimmed g.line
  stop : h.stop = g.stop
  isProof : h.flags.isProof = true
  arguments : h.arguments = .empty
  module : h.module = none

/-- The harness is about a function. -/
def IsOf (h : Harness) (f : Node) : Prop := ∃ g, f.name = some g ∧ h.FoundFor g

/-! ## What stands before a function -/

/-- The siblings between the one with number `j` and the function before it. -/
def gapBefore (siblings : List Node) (j : Nat) : List Node :=
  ((siblings.take j).reverse.takeWhile fun n => !n.isFunction).reverse

/-- A function ends the gap before it. -/
theorem gapBefore_succ_of_isFunction {siblings : List Node} {j : Nat} {n : Node}
    (hn : siblings[j]? = some n) (hf : n.isFunction = true) : gapBefore siblings (j + 1) = [] := by
  rw [gapBefore, List.take_add_one, hn]
  simp [hf]

/-- Any other node belongs to the gap before what comes next. -/
theorem gapBefore_succ_of_not_isFunction {siblings : List Node} {j : Nat} {n : Node}
    (hn : siblings[j]? = some n) (hf : n.isFunction = false) :
    gapBefore siblings (j + 1) = gapBefore siblings j ++ [n] := by
  rw [gapBefore, List.take_add_one, hn]
  simp [hf, gapBefore]

/-- What marks a proof is an attribute and no function. -/
theorem isFunction_of_marksProof {n : Node} (h : n.marksProof = true) : n.isFunction = false := by
  simp only [Node.marksProof, Node.isAttribute, Bool.and_eq_true, beq_iff_eq] at h
  simp [Node.isFunction, h.1]

/-- The sibling after another one is marked if the other marks a proof, or is marked itself and no
function. -/
theorem isMarked_succ {siblings : List Node} {j : Nat} {n : Node} (hn : siblings[j]? = some n) :
    IsMarked siblings (j + 1) ↔
      n.marksProof = true ∨ IsMarked siblings j ∧ n.isFunction = false := by
  constructor
  · rintro ⟨k, hk, hmark, hgap⟩
    rcases Nat.lt_or_ge k j with hlt | hge
    · refine Or.inr ⟨⟨k, hlt, hmark, ?_⟩, ?_⟩
      · intro i hi hki
        exact hgap i (by omega) hki
      · simpa [hn] using hgap j (by omega) hlt
    · have hkj : k = j := by omega
      subst hkj
      exact Or.inl (by simpa [hn] using hmark)
  · rintro (hmark | ⟨⟨k, hk, hmark, hgap⟩, hf⟩)
    · refine ⟨j, by omega, by simpa [hn] using hmark, ?_⟩
      intro i hi hji
      omega
    · refine ⟨k, by omega, hmark, ?_⟩
      intro i hi hki
      rcases Nat.lt_or_ge i j with hlt | hge
      · exact hgap i hlt hki
      · have hij : i = j := by omega
        subst hij
        simpa [hn] using hf

/-- A sibling is marked if something between it and the function before it marks a proof. -/
theorem isMarked_iff_any_gapBefore {siblings : List Node} {j : Nat} (hj : j ≤ siblings.length) :
    IsMarked siblings j ↔ (gapBefore siblings j).any Node.marksProof = true := by
  induction j with
  | zero => simp [IsMarked, gapBefore]
  | succ j ih =>
    have hn : siblings[j]? = some siblings[j] := List.getElem?_eq_getElem (by omega)
    rw [isMarked_succ hn, ih (by omega)]
    cases hf : siblings[j].isFunction with
    | true =>
      have hmark : siblings[j].marksProof = false := by
        cases hmark : siblings[j].marksProof with
        | false => rfl
        | true => rw [isFunction_of_marksProof hmark] at hf; cases hf
      simp [gapBefore_succ_of_isFunction hn hf, hmark]
    | false => simp [gapBefore_succ_of_not_isFunction hn hf, or_comm]

/-! ## The run of a function -/

/-- Among siblings nothing marks a proof, or there is a first one that does. -/
theorem forall_or_exists_firstMark (siblings : List Node) :
    (∀ n ∈ siblings, n.marksProof = false) ∨
      ∃ lead mark run, siblings = lead ++ mark :: run ∧ mark.marksProof = true ∧
        ∀ n ∈ lead, n.marksProof = false := by
  cases hfind : siblings.find? Node.marksProof with
  | none =>
    left
    intro n hn
    simpa using List.find?_eq_none.1 hfind n hn
  | some mark =>
    obtain ⟨hmark, lead, run, hsplit, hlead⟩ := List.find?_eq_some_iff_append.1 hfind
    refine .inr ⟨lead, mark, run, hsplit, hmark, ?_⟩
    intro n hn
    simpa using hlead n hn

/-- Without a mark before it a function is no harness. -/
theorem ofFunction?_of_unmarked {before : List Node} (h : ∀ n ∈ before, n.marksProof = false)
    (f : Node) : ofFunction? before f = none := by
  have hdrop : before.dropWhile (fun n => !n.marksProof) = [] := by
    rw [List.dropWhile_eq_nil_iff]
    intro n hn
    simp [h n hn]
  rw [ofFunction?, hdrop]

/-- The run of a function starts with the first mark of a proof. -/
theorem ofFunction?_append_cons {lead : List Node} (hlead : ∀ n ∈ lead, n.marksProof = false)
    {mark : Node} (hmark : mark.marksProof = true) (run : List Node) (f : Node) :
    ofFunction? (lead ++ mark :: run) f = f.name.map (ofRun lead (mark :: run)) := by
  have hpass : ∀ n ∈ lead, (!n.marksProof) = true := fun n hn => by simp [hlead n hn]
  rw [ofFunction?, List.dropWhile_append_of_pos hpass, List.takeWhile_append_of_pos hpass,
    List.dropWhile_cons_of_neg (by simp [hmark]), List.takeWhile_cons_of_neg (by simp [hmark]),
    List.append_nil]

/-! ## The harnesses among siblings -/

/-- The harness that the sibling with number `j` is. -/
def at? (siblings : List Node) (j : Nat) : Option Harness :=
  siblings[j]?.bind fun f => if f.isFunction then ofFunction? (gapBefore siblings j) f else none

/-- The harnesses among the siblings after the first few. -/
theorem ofSiblingsFrom_eq_filterMap (earlier rest : List Node) :
    ofSiblingsFrom (gapBefore (earlier ++ rest) earlier.length).reverse rest =
      (List.range' earlier.length rest.length).filterMap (at? (earlier ++ rest)) := by
  induction rest generalizing earlier with
  | nil => simp [ofSiblingsFrom]
  | cons n rest ih =>
    have hn : (earlier ++ n :: rest)[earlier.length]? = some n := by simp
    have hstep := ih (earlier ++ [n])
    rw [List.append_assoc, List.singleton_append, List.length_append, List.length_singleton]
      at hstep
    rw [ofSiblingsFrom, List.length_cons, List.range'_succ, List.filterMap_cons]
    cases hf : n.isFunction with
    | true =>
      rw [gapBefore_succ_of_isFunction hn hf] at hstep
      simp only [if_true, List.reverse_reverse, at?, hn, Option.bind_some, hf]
      rw [← hstep]
      cases ofFunction? (gapBefore (earlier ++ n :: rest) earlier.length) n <;> rfl
    | false =>
      rw [gapBefore_succ_of_not_isFunction hn hf, List.reverse_append] at hstep
      simp only [Bool.false_eq_true, if_false, at?, hn, Option.bind_some, hf]
      exact hstep

/-- The harnesses among siblings are those at each place in turn. -/
theorem ofSiblings_eq_filterMap (siblings : List Node) :
    ofSiblings siblings = (List.range siblings.length).filterMap (at? siblings) := by
  rw [List.range_eq_range']
  exact ofSiblingsFrom_eq_filterMap [] siblings

/-- A function has a harness if something in front of it marks a proof and it has a name; the
harness is about it. -/
theorem ofFunction?_rel (before : List Node) (f : Node) :
    Option.Rel IsOf (ofFunction? before f)
      (if f.name.isSome && before.any Node.marksProof then some f else none) := by
  rcases forall_or_exists_firstMark before with hnone | ⟨lead, mark, run, rfl, hmark, hlead⟩
  · have hany : before.any Node.marksProof = false := by
      rw [List.any_eq_false]
      intro n hn
      simp [hnone n hn]
    rw [ofFunction?_of_unmarked hnone, hany, Bool.and_false]
    exact Option.Rel.none
  · have hany : (lead ++ mark :: run).any Node.marksProof = true := by
      rw [List.any_eq_true]
      exact ⟨mark, by simp, hmark⟩
    rw [ofFunction?_append_cons hlead hmark, hany, Bool.and_true]
    cases hname : f.name with
    | none => exact Option.Rel.none
    | some g => exact Option.Rel.some ⟨g, hname, rfl, rfl, rfl, rfl, rfl, rfl⟩

/-- At each place there is a harness where there is a marked function, and it is about it. -/
theorem at?_rel_markedAt? {siblings : List Node} {j : Nat} (hj : j < siblings.length) :
    Option.Rel IsOf (at? siblings j) (markedAt? siblings j) := by
  have hn : siblings[j]? = some siblings[j] := List.getElem?_eq_getElem hj
  have hmarked : decide (IsMarked siblings j) = (gapBefore siblings j).any Node.marksProof := by
    rw [Bool.eq_iff_iff, decide_eq_true_iff]
    exact isMarked_iff_any_gapBefore (Nat.le_of_lt hj)
  rw [at?, markedAt?, hn, Option.bind_some, Option.filter_some, hmarked]
  cases hf : siblings[j].isFunction with
  | true =>
    rw [if_pos rfl, Bool.true_and]
    exact ofFunction?_rel (gapBefore siblings j) siblings[j]
  | false =>
    simp only [Bool.false_and, Bool.false_eq_true, if_false]
    exact Option.Rel.none

/-- The harnesses among siblings are, one for one, about the marked functions among them. -/
theorem ofSiblings_forall₂_markedFunctions (siblings : List Node) :
    List.Forall₂ IsOf (ofSiblings siblings) (markedFunctions siblings) := by
  rw [ofSiblings_eq_filterMap, markedFunctions]
  have hplaces : List.Forall₂ (fun i j => i = j ∧ j < siblings.length)
      (List.range siblings.length) (List.range siblings.length) := by
    rw [List.forall₂_same]
    intro j hj
    exact ⟨rfl, List.mem_range.1 hj⟩
  refine List.rel_filterMap ?_ hplaces
  rintro i j ⟨rfl, hi⟩
  exact at?_rel_markedAt? hi

/-! ## The harnesses of a tree -/

/-- The harnesses of a tree are found below its nodes in preorder. -/
theorem ofTree_eq_flatMap_preorder (root : Node) :
    ofTree root = root.preorder.flatMap fun p => ofSiblings p.children := by
  rw [ofTree, Node.walk_eq_preorderAll, Node.preorderAll_singleton]

/-- The harnesses of a tree are those of the marked functions, list of siblings by list of siblings.
-/
theorem ofTree_forall₂_flatMap (root : Node) :
    List.Forall₂ IsOf (ofTree root)
      (root.preorder.flatMap fun p => markedFunctions p.children) := by
  rw [ofTree_eq_flatMap_preorder]
  refine List.rel_flatMap (R := Eq) (List.forall₂_eq_eq_eq ▸ rfl) ?_
  rintro p q rfl
  exact ofSiblings_forall₂_markedFunctions p.children

/-- Marked functions are functions among the siblings. -/
theorem mem_of_mem_markedFunctions {siblings : List Node} {f : Node}
    (h : f ∈ markedFunctions siblings) : f ∈ siblings ∧ f.isFunction = true := by
  obtain ⟨j, -, hj⟩ := List.mem_filterMap.1 h
  obtain ⟨hf, hmarked⟩ := Option.filter_eq_some_iff.1 hj
  simp only [Bool.and_eq_true] at hmarked
  exact ⟨List.mem_of_getElem? hf, hmarked.1.1⟩

/-- Each harness of a tree is about a function below its root. -/
theorem exists_function_of_mem_ofTree {root : Node} {h : Harness} (hh : h ∈ ofTree root) :
    ∃ f ∈ Node.preorderAll root.children, f.isFunction = true ∧ h.IsOf f := by
  have hrel := ofTree_forall₂_flatMap root
  obtain ⟨i, hi, rfl⟩ := List.getElem_of_mem hh
  have hof := (List.forall₂_iff_get.1 hrel).2 i hi (hrel.length_eq ▸ hi)
  have hmem := List.get_mem (root.preorder.flatMap fun p => markedFunctions p.children)
    ⟨i, hrel.length_eq ▸ hi⟩
  obtain ⟨p, hp, hf⟩ := List.mem_flatMap.1 hmem
  obtain ⟨hchild, hfunction⟩ := mem_of_mem_markedFunctions hf
  exact ⟨_, Node.mem_preorderAll_children hp hchild, hfunction, hof⟩

/-- The harnesses of a tree are, one for one and in order, about the marked functions with names
among the children of its nodes, and the walk that finds them is the recursive one. -/
theorem ofTree_forall₂_markedFunctions (root : Node) :
    ofTree root = root.preorder.flatMap (fun p => ofSiblings p.children) ∧
      List.Forall₂ IsOf (ofTree root)
        (root.preorder.flatMap fun p => markedFunctions p.children) :=
  ⟨ofTree_eq_flatMap_preorder root, ofTree_forall₂_flatMap root⟩

end ProofHarness.Harness
