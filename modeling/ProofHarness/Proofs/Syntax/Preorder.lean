import ProofHarness.Syntax.Node

/-!
# The preorder of a tree

`Node.preorder` lists the nodes of a tree by recursion on the tree, and `preorderAll` those of the
trees of a forest.  The walk that keeps a list of waiting trees visits the same nodes in the same
order (`walk_eq_preorderAll`), so that every statement about a walk can be proved by
`forestInduction`: once for the trees below the first root, and once for the trees beside it.
-/

set_option autoImplicit false

namespace ProofHarness.Syntax.Node

/-- Induction over a forest, with one hypothesis for what lies below the first tree and one for the
trees after it. -/
theorem forestInduction {motive : List Node → Prop} (nil : motive [])
    (cons : ∀ n ns, motive n.children → motive ns → motive (n :: ns)) (ns : List Node) :
    motive ns := by
  match ns with
  | [] => exact nil
  | n :: ns =>
    have below := forestInduction nil cons n.children
    have beside := forestInduction nil cons ns
    exact cons n ns below beside
termination_by sizeAll ns
decreasing_by
  · rw [sizeAll, size_eq_sizeAll_children]
    omega
  · rw [sizeAll, size_eq_sizeAll_children]
    omega

mutual

/-- The nodes of a tree, each before the nodes below it, siblings from left to right. -/
def preorder : Node → List Node
  | mk kind here name children => mk kind here name children :: preorderAll children

/-- The nodes of some trees, tree by tree. -/
def preorderAll : List Node → List Node
  | [] => []
  | n :: ns => preorder n ++ preorderAll ns

end

/-- A tree starts with its root. -/
theorem preorder_eq_cons (n : Node) : n.preorder = n :: preorderAll n.children := by
  cases n with
  | mk kind here name children => rw [preorder, Node.children]

/-- An empty forest has no nodes. -/
@[simp] theorem preorderAll_nil : preorderAll [] = [] := by rw [preorderAll]

/-- The nodes of a forest, tree by tree. -/
theorem preorderAll_cons (n : Node) (ns : List Node) :
    preorderAll (n :: ns) = n :: (preorderAll n.children ++ preorderAll ns) := by
  rw [preorderAll, preorder_eq_cons, List.cons_append]

/-- The nodes of two forests. -/
theorem preorderAll_append (ns ms : List Node) :
    preorderAll (ns ++ ms) = preorderAll ns ++ preorderAll ms := by
  induction ns with
  | nil => simp
  | cons n ns ih => rw [List.cons_append, preorderAll, preorderAll, ih, List.append_assoc]

/-- A forest of one tree. -/
theorem preorderAll_singleton (n : Node) : preorderAll [n] = n.preorder := by
  rw [preorderAll, preorderAll_nil, List.append_nil]

/-- A forest is gone through tree by tree. -/
theorem preorderAll_eq_flatMap (ns : List Node) : preorderAll ns = ns.flatMap preorder := by
  induction ns with
  | nil => simp
  | cons n ns ih => rw [preorderAll, ih, List.flatMap_cons]

/-- Walking with a list of waiting trees is walking by recursion. -/
theorem walk_eq_preorderAll (waiting : List Node) : walk waiting = preorderAll waiting := by
  fun_induction walk waiting with
  | case1 => simp
  | case2 n waiting ih => rw [ih, preorderAll_append, preorderAll_cons]

/-- The nodes of a kind below a node, in preorder. -/
theorem descendants_eq_filter (n : Node) (kind : Kind) :
    n.descendants kind = (preorderAll n.children).filter fun m => m.kind == kind := by
  rw [descendants, walk_eq_preorderAll]

/-- The nodes of a forest are those of its trees. -/
theorem mem_preorderAll_iff {n : Node} {ns : List Node} :
    n ∈ preorderAll ns ↔ ∃ m ∈ ns, n ∈ m.preorder := by
  induction ns with
  | nil => simp
  | cons m ms ih => simp [preorderAll, ih]

/-- A tree has its root. -/
theorem mem_preorder_self (n : Node) : n ∈ n.preorder := by
  rw [preorder_eq_cons]
  exact List.mem_cons_self

/-- A forest has the roots of its trees. -/
theorem mem_preorderAll_of_mem {n : Node} {ns : List Node} (h : n ∈ ns) : n ∈ preorderAll ns := by
  rw [mem_preorderAll_iff]
  exact ⟨n, h, n.mem_preorder_self⟩

/-- What lies below a node of a forest lies in the forest. -/
theorem mem_preorderAll_of_mem_children {n p : Node} {ns : List Node} (hp : p ∈ preorderAll ns)
    (hn : n ∈ p.children) : n ∈ preorderAll ns := by
  induction ns using forestInduction with
  | nil => simp at hp
  | cons m ms below beside =>
    rw [preorderAll_cons, List.mem_cons, List.mem_append] at hp ⊢
    rcases hp with rfl | hp | hp
    · exact Or.inr (Or.inl (mem_preorderAll_of_mem hn))
    · exact Or.inr (Or.inl (below hp))
    · exact Or.inr (Or.inr (beside hp))

/-- A child of any node of a tree lies below the root. -/
theorem mem_preorderAll_children {n p root : Node} (hp : p ∈ root.preorder)
    (hn : n ∈ p.children) : n ∈ preorderAll root.children := by
  rw [preorder_eq_cons, List.mem_cons] at hp
  rcases hp with rfl | hp
  · exact mem_preorderAll_of_mem hn
  · exact mem_preorderAll_of_mem_children hp hn

/-- The trees of a forest and the children of all its nodes are the nodes of the forest. -/
theorem append_flatMap_children_perm (ns : List Node) :
    (ns ++ (preorderAll ns).flatMap children).Perm (preorderAll ns) := by
  induction ns using forestInduction with
  | nil => simp
  | cons n ns below beside =>
    rw [preorderAll_cons, List.flatMap_cons, List.flatMap_append, List.cons_append]
    have hswap := List.perm_append_comm_assoc ns
      (n.children ++ (preorderAll n.children).flatMap children)
      ((preorderAll ns).flatMap children)
    simp only [List.append_assoc] at hswap below ⊢
    refine (hswap.trans ?_).cons n
    rw [← List.append_assoc]
    exact below.append beside

/-- Each node below the root of a tree is a child of one node. -/
theorem flatMap_children_preorder_perm (root : Node) :
    (root.preorder.flatMap children).Perm (preorderAll root.children) := by
  rw [preorder_eq_cons, List.flatMap_cons]
  exact append_flatMap_children_perm root.children

end ProofHarness.Syntax.Node
