import Mathlib.Logic.Relation
import ProofHarness.Proofs.Scan.QuickCheck

/-!
# What harnesses do not depend on

`Edit` relates two trees of which the second has one comment more, or nothing left below a node
where nothing marked a proof.  The harnesses of a tree stay the same after any number of such edits,
made or taken back anywhere in the tree (`ofTree_eq_of_eqvGen_edit`).

A scan of siblings sees of each sibling all but its children, and of comments nothing
(`ofSiblings_seen`).  The harnesses of a tree are those among the children of its root and those of
the children, tree by tree (`ofTree_eq_append`).  An edit therefore has to be looked at in one place
only: around it nothing that is seen has changed.
-/

set_option autoImplicit false

namespace ProofHarness

open Syntax
open Syntax.Node (preorderAll)

/-! ## Edits -/

/-- Nothing in some trees marks a proof. -/
def Syntax.Node.Unmarked (ns : List Node) : Prop := ∀ n ∈ preorderAll ns, n.marksProof = false

instance (ns : List Node) : Decidable (Node.Unmarked ns) :=
  inferInstanceAs (Decidable (∀ n ∈ preorderAll ns, n.marksProof = false))

/-- The second tree is the first one after a change at one node that no mark of a proof has a part
in. -/
inductive Syntax.Node.Edit : Node → Node → Prop
  /-- A comment comes to stand among the children of the node. -/
  | comment {kind : Kind} {here : Segment} {name : Option Segment} (before after : List Node)
      {comment : Node} (hcomment : comment.isComment = true)
      (hunmarked : Node.Unmarked [comment]) :
      Edit (.mk kind here name (before ++ after)) (.mk kind here name (before ++ comment :: after))
  /-- The children of the node go; its kind, its text and its name stay. -/
  | prune {kind : Kind} {here : Segment} {name : Option Segment} {children : List Node}
      (hunmarked : Node.Unmarked children) :
      Edit (.mk kind here name children) (.mk kind here name [])
  /-- The change is at a node below the root. -/
  | inside {kind : Kind} {here : Segment} {name : Option Segment} (before after : List Node)
      {n m : Node} (hedit : Edit n m) :
      Edit (.mk kind here name (before ++ n :: after)) (.mk kind here name (before ++ m :: after))

/-! ## What a scan of siblings sees -/

/-- The node without its children. -/
def Syntax.Node.alone (n : Node) : Node := .mk n.kind n.here n.name []

/-- Comments are no functions. -/
theorem Syntax.Node.isFunction_of_isComment {n : Node} (h : n.isComment = true) :
    n.isFunction = false := by
  rw [Node.isComment, Bool.or_eq_true, beq_iff_eq, beq_iff_eq] at h
  rcases h with h | h <;> simp [Node.isFunction, h]

/-- Comments are no attributes. -/
theorem Syntax.Node.isAttribute_of_isComment {n : Node} (h : n.isComment = true) :
    n.isAttribute = false := by
  rw [Node.isComment, Bool.or_eq_true, beq_iff_eq, beq_iff_eq] at h
  rcases h with h | h <;> simp [Node.isAttribute, h]

/-- An edit of a tree does not show from beside its root. -/
theorem Syntax.Node.Edit.alone_eq {n m : Node} (h : n.Edit m) : n.alone = m.alone := by
  cases h <;> rfl

namespace Harness

/-- The siblings that are no comments, without their children. -/
def seen (siblings : List Node) : List Node :=
  (siblings.filter fun n => !n.isComment).map Node.alone

/-- What is seen of two lists of siblings. -/
theorem seen_append (ns ms : List Node) : seen (ns ++ ms) = seen ns ++ seen ms := by
  rw [seen, List.filter_append, List.map_append, seen, seen]

/-- Siblings are seen backwards as they are forwards. -/
theorem seen_reverse (ns : List Node) : seen ns.reverse = (seen ns).reverse := by
  rw [seen, List.filter_reverse, List.map_reverse, seen]

/-- Comments are not seen. -/
theorem seen_cons_of_isComment {n : Node} (h : n.isComment = true) (ns : List Node) :
    seen (n :: ns) = seen ns := by
  rw [seen, List.filter_cons_of_neg (by simp [h]), seen]

/-- Any other node is seen without what is below it. -/
theorem seen_cons_of_not_isComment {n : Node} (h : n.isComment = false) (ns : List Node) :
    seen (n :: ns) = n.alone :: seen ns := by
  rw [seen, List.filter_cons_of_pos (by simp [h]), List.map_cons, seen]

/-- What shows of a node is seen of it. -/
theorem seen_cons_congr {n m : Node} (h : n.alone = m.alone) (ns : List Node) :
    seen (n :: ns) = seen (m :: ns) := by
  have hcomment : n.isComment = m.isComment := by
    show n.alone.isComment = m.alone.isComment
    rw [h]
  cases hm : m.isComment with
  | true => rw [seen_cons_of_isComment (hcomment.trans hm), seen_cons_of_isComment hm]
  | false =>
    rw [seen_cons_of_not_isComment (hcomment.trans hm), seen_cons_of_not_isComment hm, h]

/-- The texts of a run are seen. -/
theorem runTexts_seen (run : List Node) : runTexts (seen run) = runTexts run := by
  have hfilter : (seen run).filter (fun n => n.isAttribute && Attribute.concernsVerifier n.text) =
      (run.filter fun n => n.isAttribute && Attribute.concernsVerifier n.text).map Node.alone := by
    rw [seen, List.filter_map, List.filter_filter]
    congr 1
    apply List.filter_congr
    intro n _
    cases hcomment : n.isComment with
    | true => simp [Node.isAttribute_of_isComment hcomment]
    | false => simp [Node.alone, Node.isAttribute, Node.kind, Node.text, Node.here]
  rw [runTexts, hfilter, List.map_map, runTexts]
  rfl

/-- Whether a mark of a test is the last one is seen. -/
theorem endsWithTest_seen (nodes : List Node) : endsWithTest (seen nodes) = endsWithTest nodes := by
  have hfilter : (seen nodes).filter (fun n => !n.isComment) = seen nodes := by
    rw [List.filter_eq_self]
    intro n hn
    obtain ⟨m, hm, rfl⟩ := List.mem_map.1 hn
    exact (List.mem_filter.1 hm).2
  rw [endsWithTest, hfilter, seen, List.getLast?_map, Option.any_map, endsWithTest]
  rfl

/-- A function is the same harness when comments before it and children go. -/
theorem ofFunction?_seen (before : List Node) (f : Node) :
    ofFunction? (seen before) f.alone = ofFunction? before f := by
  have hunmarked : ∀ ns : List Node, (∀ n ∈ ns, n.marksProof = false) →
      ∀ n ∈ seen ns, n.marksProof = false := by
    intro ns hns n hn
    obtain ⟨m, hm, rfl⟩ := List.mem_map.1 hn
    exact hns m (List.mem_filter.1 hm).1
  rcases forall_or_exists_firstMark before with hnone | ⟨lead, mark, run, rfl, hmark, hlead⟩
  · rw [ofFunction?_of_unmarked hnone, ofFunction?_of_unmarked (hunmarked before hnone)]
  · have hcomment : mark.isComment = false := by
      cases h : mark.isComment with
      | false => rfl
      | true => rw [Node.marksProof, Node.isAttribute_of_isComment h] at hmark; cases hmark
    have hrun : ofRun (seen lead) (seen (mark :: run)) = ofRun lead (mark :: run) := by
      funext g
      rw [ofRun, runTexts_seen, endsWithTest_seen, ofRun]
    have hmark' : mark.alone.marksProof = true := hmark
    rw [seen_append, seen_cons_of_not_isComment hcomment,
      ofFunction?_append_cons (hunmarked lead hlead) hmark', ofFunction?_append_cons hlead hmark,
      ← seen_cons_of_not_isComment hcomment, hrun]
    rfl

/-- The harnesses among siblings depend on what is seen. -/
theorem ofSiblingsFrom_seen (before rest : List Node) :
    ofSiblingsFrom (seen before) (seen rest) = ofSiblingsFrom before rest := by
  induction rest generalizing before with
  | nil => rfl
  | cons n rest ih =>
    cases hcomment : n.isComment with
    | true =>
      -- A comment is carried along with the siblings before the next function, and not seen there.
      rw [seen_cons_of_isComment hcomment, ofSiblingsFrom, Node.isFunction_of_isComment hcomment,
        if_neg (by decide), ← ih, seen_cons_of_isComment hcomment]
    | false =>
      have hfunction : n.alone.isFunction = n.isFunction := rfl
      have hnext := ih (n :: before)
      rw [seen_cons_of_not_isComment hcomment] at hnext
      rw [seen_cons_of_not_isComment hcomment, ofSiblingsFrom, ofSiblingsFrom, hfunction,
        ← seen_reverse, ofFunction?_seen, hnext, ← ih []]
      rfl

/-- A scan of siblings depends on what it sees of them. -/
theorem ofSiblings_seen (siblings : List Node) :
    ofSiblings (seen siblings) = ofSiblings siblings :=
  ofSiblingsFrom_seen [] siblings

/-- Siblings of which the same is seen have the same harnesses. -/
theorem ofSiblings_congr {ns ms : List Node} (h : seen ns = seen ms) :
    ofSiblings ns = ofSiblings ms := by
  rw [← ofSiblings_seen ns, h, ofSiblings_seen]

/-! ## The harnesses of a tree, one level at a time -/

/-- The harnesses of a tree are those among the children of the root and those of the children. -/
theorem ofTree_eq_append (root : Node) :
    ofTree root = ofSiblings root.children ++ root.children.flatMap ofTree := by
  rw [ofTree_eq_flatMap_preorder, Node.preorder_eq_cons, List.flatMap_cons,
    Node.preorderAll_eq_flatMap, List.flatMap_assoc]
  simp only [← ofTree_eq_flatMap_preorder]

/-- A tree in which nothing below the root marks a proof has no harness. -/
theorem ofTree_eq_nil {root : Node} (h : Node.Unmarked root.children) : ofTree root = [] := by
  have hmarks : root.proofMarks = [] := by
    rw [proofMarks_eq_filter, List.filter_eq_nil_iff]
    intro n hn
    simp [h n hn]
  have hlength := length_ofTree_le root
  rw [hmarks, List.length_nil, Nat.le_zero, List.length_eq_zero_iff] at hlength
  exact hlength

/-! ## Harnesses after edits -/

/-- The harnesses of a tree are those among its children, and those of each child. -/
theorem ofTree_mk (kind : Kind) (here : Segment) (name : Option Segment) (children : List Node) :
    ofTree (.mk kind here name children) = ofSiblings children ++ children.flatMap ofTree :=
  ofTree_eq_append (.mk kind here name children)

/-- One edit leaves the harnesses as they are. -/
theorem ofTree_eq_of_edit {n m : Node} (h : n.Edit m) : ofTree n = ofTree m := by
  induction h with
  | @comment kind here name before after comment hcomment hunmarked =>
    have hseen : seen (before ++ comment :: after) = seen (before ++ after) := by
      rw [seen_append, seen_cons_of_isComment hcomment, seen_append]
    have hnone : ofTree comment = [] := by
      apply ofTree_eq_nil
      intro n hn
      apply hunmarked
      rw [Node.preorderAll_cons]
      simp [hn]
    rw [ofTree_mk, ofTree_mk, ofSiblings_congr hseen, List.flatMap_append, List.flatMap_append,
      List.flatMap_cons, hnone, List.nil_append]
  | @prune kind here name children hunmarked =>
    have hbefore : ofTree (.mk kind here name children) = [] := ofTree_eq_nil hunmarked
    rw [hbefore, ofTree_mk]
    rfl
  | @inside kind here name before after n m hedit ih =>
    have hseen : seen (before ++ n :: after) = seen (before ++ m :: after) := by
      rw [seen_append, seen_cons_congr hedit.alone_eq, seen_append]
    rw [ofTree_mk, ofTree_mk, ofSiblings_congr hseen, List.flatMap_append, List.flatMap_append,
      List.flatMap_cons, List.flatMap_cons, ih]

/-- Trees that differ in edits, made or taken back in any order and number, have the same
harnesses. -/
theorem ofTree_eq_of_eqvGen_edit {root root' : Node} (h : Relation.EqvGen Node.Edit root root') :
    ofTree root = ofTree root' := by
  induction h with
  | rel n m hedit => exact ofTree_eq_of_edit hedit
  | refl n => rfl
  | symm n m _ ih => exact ih.symm
  | trans n m k _ _ hleft hright => exact hleft.trans hright

/-- In a module, a test that is a harness: a comment comes between its two marks, another one goes,
and so does its body. -/
theorem ofTree_eq_of_eqvGen_edit_test :
    let leaf (kind : Kind) (text : String) : Node := .mk kind ⟨text, text, ⟨0, 0⟩, ⟨0, 0⟩⟩ none []
    let check (body : List Node) : Node :=
      .mk .function ⟨"fn check() {}", "fn check() {}", ⟨3, 0⟩, ⟨3, 13⟩⟩
        (some ⟨"check", "fn check() {}", ⟨3, 3⟩, ⟨3, 8⟩⟩) body
    let inModule (items : List Node) : Node :=
      .mk (.other "source_file") default none [.mk .module default none items]
    let test := leaf .attribute "#[test]"
    let proof := leaf .attribute "#[kani::proof]"
    let todo := leaf .lineComment "// #[kani::proof]"
    let slow := leaf .blockComment "/* slow */"
    let body := [leaf .attribute "#[allow(unused)]"]
    let root := inModule [test, proof, slow, check body]
    let root' := inModule [test, todo, proof, check []]
    Relation.EqvGen Node.Edit root root' ∧ ofTree root = ofTree root' ∧
      (ofTree root').map (fun h => (h.name, h.flags.isTest)) = [("check", true)] := by
  intro leaf check inModule test proof todo slow body root root'
  have hmodule : ∀ {items items' : List Node},
      Node.Edit (.mk .module default none items) (.mk .module default none items') →
        Node.Edit (inModule items) (inModule items') := fun h => .inside [] [] h
  -- Add a comment between the marks, then take the other one away, then cut off the body.
  have hadded : root.Edit (inModule [test, todo, proof, slow, check body]) :=
    hmodule (.comment [test] [proof, slow, check body] rfl (by decide +kernel))
  have hgone : Node.Edit (inModule [test, todo, proof, check body])
      (inModule [test, todo, proof, slow, check body]) :=
    hmodule (.comment [test, todo, proof] [check body] rfl (by decide +kernel))
  have hpruned : Node.Edit (inModule [test, todo, proof, check body]) root' :=
    hmodule (.inside [test, todo, proof] [] (.prune (by decide +kernel)))
  have hedits : Relation.EqvGen Node.Edit root root' :=
    (Relation.EqvGen.rel _ _ hadded).trans _ _ _
      (((Relation.EqvGen.rel _ _ hgone).symm _ _).trans _ _ _ (.rel _ _ hpruned))
  exact ⟨hedits, ofTree_eq_of_eqvGen_edit hedits, by decide +kernel⟩

end Harness

end ProofHarness
