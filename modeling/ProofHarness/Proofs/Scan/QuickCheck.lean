import Mathlib.Data.List.Perm.Subperm
import ProofHarness.Proofs.Harness.Extraction
import ProofHarness.Scan

/-!
# The quick check and the full scan

The quick check looks for an attribute that marks a proof anywhere below the root of a tree; the
full scan goes through the siblings below each node and pairs such attributes with functions.

* Among siblings, each harness takes at least one mark for itself, so that a tree has no more
  harnesses than marks (`length_ofTree_le`).  Where the quick check finds nothing the scan is
  therefore empty.
* Each harness is about a function of its own (`map_namePlace_ofTree_subperm`).
* Marks come to nothing exactly where the function after each of them is missing or has no name
  (`ofTree_eq_nil_iff`).
-/

set_option autoImplicit false

namespace ProofHarness

open Syntax
open Text (Position)

/-- The attributes below the root of a tree that mark a proof. -/
def Syntax.Node.proofMarks (root : Node) : List Node :=
  (root.descendants .attribute).filter fun n => Attribute.marksProof n.text

/-- The name of a node and the place after it, if the node has a name. -/
def Syntax.Node.namePlace? (f : Node) : Option (String × Position) :=
  f.name.map fun g => (g.text, g.stop)

/-- The names of the functions below the root of a tree, each with the place after it. -/
def Syntax.Node.functionNamePlaces (root : Node) : List (String × Position) :=
  (root.descendants .function).filterMap Node.namePlace?

/-- The name that a harness records and the place after it. -/
def Harness.namePlace (h : Harness) : String × Position := (h.name, h.stop)

/-- The first function among siblings after the one with number `k`. -/
def Syntax.Node.functionAfter? (siblings : List Node) (k : Nat) : Option Node :=
  (siblings.drop (k + 1)).find? Node.isFunction

namespace Harness

/-! ## Marks -/

/-- The marks are the nodes below the root that mark a proof. -/
theorem proofMarks_eq_filter (root : Node) :
    root.proofMarks = (Node.preorderAll root.children).filter Node.marksProof := by
  rw [Node.proofMarks, Node.descendants_eq_filter, List.filter_filter]
  apply List.filter_congr
  intro n _
  rw [Node.marksProof, Node.isAttribute, Bool.and_comm]

/-- The quick check fails exactly if there are no marks. -/
theorem mentionsProof_eq_false_iff (root : Node) :
    root.mentionsProof = false ↔ root.proofMarks = [] := by
  rw [Node.mentionsProof, Node.proofMarks, List.any_eq_false, List.filter_eq_nil_iff]

/-- A function that is a harness has a mark in front of it. -/
theorem length_ofFunction?_le (before : List Node) (f : Node) :
    (ofFunction? before f).toList.length ≤ before.countP Node.marksProof := by
  rcases forall_or_exists_firstMark before with hnone | ⟨lead, mark, run, rfl, hmark, -⟩
  · simp [ofFunction?_of_unmarked hnone]
  · have hpos : 0 < (lead ++ mark :: run).countP Node.marksProof := by
      rw [List.countP_pos_iff]
      exact ⟨mark, by simp, hmark⟩
    have hone : (ofFunction? (lead ++ mark :: run) f).toList.length ≤ 1 := by
      cases ofFunction? (lead ++ mark :: run) f <;> simp
    omega

/-- Each step over the siblings either keeps all marks for later, or spends those that it has
kept. -/
theorem length_ofSiblingsFrom_le (before rest : List Node) :
    (ofSiblingsFrom before rest).length ≤
      before.countP Node.marksProof + rest.countP Node.marksProof := by
  induction rest generalizing before with
  | nil => simp [ofSiblingsFrom]
  | cons n rest ih =>
    rw [ofSiblingsFrom, List.countP_cons]
    split
    · have hhere := length_ofFunction?_le before.reverse n
      rw [List.countP_reverse] at hhere
      have hlater := ih []
      rw [List.countP_nil] at hlater
      rw [List.length_append]
      omega
    · have hlater := ih (n :: before)
      rw [List.countP_cons] at hlater
      omega

/-- A tree has no more harnesses than marks. -/
theorem length_ofTree_le (root : Node) : (ofTree root).length ≤ root.proofMarks.length := by
  have hsiblings : ∀ ps : List Node, (ps.flatMap fun p => ofSiblings p.children).length ≤
      (ps.flatMap Node.children).countP Node.marksProof := by
    intro ps
    induction ps with
    | nil => simp
    | cons p ps ih =>
      have hhere := length_ofSiblingsFrom_le [] p.children
      rw [List.countP_nil, Nat.zero_add] at hhere
      rw [List.flatMap_cons, List.flatMap_cons, List.length_append, List.countP_append]
      exact Nat.add_le_add hhere ih
  have hperm := Node.flatMap_children_preorder_perm root
  rw [ofTree_eq_flatMap_preorder, proofMarks_eq_filter, ← List.countP_eq_length_filter,
    ← hperm.countP_eq]
  exact hsiblings root.preorder

/-! ## Functions -/

/-- The harness that a function is records its name and place. -/
theorem map_namePlace_ofFunction?_sublist (before : List Node) (f : Node) :
    ((ofFunction? before f).toList.map namePlace).Sublist f.namePlace?.toList := by
  unfold ofFunction? Node.namePlace?
  split
  · simp
  · cases f.name <;> simp [namePlace, ofRun]

/-- Among siblings each harness takes its name and place from a function, one after the other. -/
theorem map_namePlace_ofSiblingsFrom_sublist (before rest : List Node) :
    ((ofSiblingsFrom before rest).map namePlace).Sublist
      ((rest.filter Node.isFunction).filterMap Node.namePlace?) := by
  induction rest generalizing before with
  | nil => simp [ofSiblingsFrom]
  | cons n rest ih =>
    rw [ofSiblingsFrom]
    cases hf : n.isFunction with
    | true =>
      have hhere := map_namePlace_ofFunction?_sublist before.reverse n
      have hboth := hhere.append (ih [])
      rw [List.filter_cons_of_pos hf, if_pos rfl, List.map_append, List.filterMap_cons]
      cases hplace : n.namePlace? with
      | none => simpa [hplace] using hboth
      | some place => simpa [hplace] using hboth
    | false =>
      rw [List.filter_cons_of_neg (by simp [hf])]
      exact ih (n :: before)

/-- The names and places of the harnesses of a tree are, as often as each occurs, among those of
its functions. -/
theorem map_namePlace_ofTree_subperm (root : Node) :
    ((ofTree root).map namePlace).Subperm root.functionNamePlaces := by
  have hsiblings : ∀ ps : List Node,
      ((ps.flatMap fun p => ofSiblings p.children).map namePlace).Sublist
        (((ps.flatMap Node.children).filter Node.isFunction).filterMap Node.namePlace?) := by
    intro ps
    induction ps with
    | nil => simp
    | cons p ps ih =>
      rw [List.flatMap_cons, List.flatMap_cons, List.map_append, List.filter_append,
        List.filterMap_append]
      exact (map_namePlace_ofSiblingsFrom_sublist [] p.children).append ih
  have hperm := Node.flatMap_children_preorder_perm root
  rw [ofTree_eq_flatMap_preorder, Node.functionNamePlaces, Node.descendants_eq_filter]
  exact (hsiblings root.preorder).subperm.trans
    ((hperm.filter Node.isFunction).filterMap Node.namePlace?).subperm

/-! ## Marks that come to nothing -/

/-- The function after a sibling is the one between which and the sibling stands no other. -/
theorem functionAfter?_eq_some_iff {siblings : List Node} {k : Nat} {f : Node} :
    Node.functionAfter? siblings k = some f ↔
      ∃ j, k < j ∧ siblings[j]? = some f ∧ f.isFunction = true ∧
        ∀ i < j, k < i → siblings[i]?.any Node.isFunction = false := by
  rw [Node.functionAfter?, List.find?_eq_some_iff_getElem]
  constructor
  · rintro ⟨hfunction, i, hi, hif, hbetween⟩
    rw [List.length_drop] at hi
    refine ⟨k + 1 + i, by omega, ?_, hfunction, ?_⟩
    · rw [← hif, List.getElem_drop, List.getElem?_eq_getElem]
    · intro m hm hkm
      have hnot := hbetween (m - (k + 1)) (by omega)
      have hsum : k + 1 + (m - (k + 1)) = m := by omega
      simp only [List.getElem_drop, hsum] at hnot
      rw [List.getElem?_eq_getElem (by omega)]
      simpa using hnot
  · rintro ⟨j, hkj, hj, hfunction, hbetween⟩
    obtain ⟨hlt, hjf⟩ := List.getElem?_eq_some_iff.1 hj
    have hsum : k + 1 + (j - (k + 1)) = j := by omega
    refine ⟨hfunction, j - (k + 1), by rw [List.length_drop]; omega, ?_, ?_⟩
    · simpa only [List.getElem_drop, hsum] using hjf
    · intro i hi
      have hnot := hbetween (k + 1 + i) (by omega) (by omega)
      rw [List.getElem?_eq_getElem (by omega)] at hnot
      simpa [List.getElem_drop] using hnot

/-- Siblings hold no harness exactly if the function after each mark among them is missing or has
no name. -/
theorem ofSiblings_eq_nil_iff (siblings : List Node) :
    ofSiblings siblings = [] ↔
      ∀ k n, siblings[k]? = some n → n.marksProof = true →
        ∀ f, Node.functionAfter? siblings k = some f → f.name = none := by
  -- There are as many harnesses as marked functions, so that it is about these.
  have hlength := (ofSiblings_forall₂_markedFunctions siblings).length_eq
  rw [← List.length_eq_zero_iff, hlength, List.length_eq_zero_iff, markedFunctions,
    List.filterMap_eq_nil_iff]
  constructor
  · intro hnone k n hk hmark f hf
    obtain ⟨j, hkj, hj, hfunction, hbetween⟩ := functionAfter?_eq_some_iff.1 hf
    by_contra hname
    have hmarked : IsMarked siblings j := ⟨k, hkj, by simpa [hk] using hmark, hbetween⟩
    have hsome : markedAt? siblings j = some f :=
      markedAt?_eq_some_iff.2 ⟨hj, hfunction, Option.isSome_iff_ne_none.2 hname, hmarked⟩
    have hlt := (List.getElem?_eq_some_iff.1 hj).1
    rw [hnone j (List.mem_range.2 hlt)] at hsome
    cases hsome
  · intro hall j _
    rw [Option.eq_none_iff_forall_ne_some]
    intro f hf
    obtain ⟨hj, hfunction, hname, k, hkj, hmark, hbetween⟩ := markedAt?_eq_some_iff.1 hf
    have hafter := functionAfter?_eq_some_iff.2 ⟨j, hkj, hj, hfunction, hbetween⟩
    cases hk : siblings[k]? with
    | none => simp [hk] at hmark
    | some n =>
      have hnone := hall k n hk (by simpa [hk] using hmark) f hafter
      rw [hnone] at hname
      cases hname

/-- A tree holds no harness exactly if that is so among the siblings below each of its nodes. -/
theorem ofTree_eq_nil_iff (root : Node) :
    ofTree root = [] ↔
      ∀ p ∈ root.preorder, ∀ k n, p.children[k]? = some n → n.marksProof = true →
        ∀ f, Node.functionAfter? p.children k = some f → f.name = none := by
  rw [ofTree_eq_flatMap_preorder, List.flatMap_eq_nil_iff]
  simp only [ofSiblings_eq_nil_iff]

end Harness

/-! ## The quick check and the scan -/

/-- Where the quick check of a text finds nothing, its scan is empty. -/
theorem scan_ofSourceWith_of_mentionsProofWith_eq_false {parse : String → Node} {text : String}
    (h : mentionsProofWith parse text = false) (strategy : ModulePaths) :
    Scan.ofSourceWith parse text strategy = ⟨none, [], []⟩ := by
  have hmarks := (Harness.mentionsProof_eq_false_iff (parse text)).1 h
  have hlength := Harness.length_ofTree_le (parse text)
  rw [hmarks, List.length_nil, Nat.le_zero, List.length_eq_zero_iff] at hlength
  cases strategy <;> simp [Scan.ofSourceWith, Scan.ofTree, hlength, attachModules, normalize,
    Scan.ofNormalized]

/-- Where the quick check of a text finds nothing, its scan is empty, whatever the parser.  A tree
holds no harness exactly if the function after each mark is missing or has no name; it has at most
as many harnesses as marks, and the names and places of its harnesses are, as often as each occurs,
among those of its functions. -/
theorem quickCheck_bounds_scan (parse : String → Node) (text : String) (root : Node) :
    (mentionsProofWith parse text = false →
        ∀ strategy, Scan.ofSourceWith parse text strategy = ⟨none, [], []⟩) ∧
      (Harness.ofTree root = [] ↔
        ∀ p ∈ root.preorder, ∀ k n, p.children[k]? = some n → n.marksProof = true →
          ∀ f, Node.functionAfter? p.children k = some f → f.name = none) ∧
      (Harness.ofTree root).length ≤ root.proofMarks.length ∧
      ((Harness.ofTree root).map Harness.namePlace).Subperm root.functionNamePlaces :=
  ⟨scan_ofSourceWith_of_mentionsProofWith_eq_false, Harness.ofTree_eq_nil_iff root,
    Harness.length_ofTree_le root, Harness.map_namePlace_ofTree_subperm root⟩

end ProofHarness
