import Mathlib.Data.List.Forall2
import Mathlib.Data.List.Lex
import ProofHarness.Proofs.Syntax.Preorder

/-!
# The walk over the descendants of a node

The walk takes the last node off a stack and puts its children there, the first of them last.  A
step takes one node away from those that are still to come and changes nothing about what will have
been found in the end (`Visit.ahead_of_next?`), so that the walk stops after one step for each node,
with the descendants in preorder (`Visit.stops_iff`).

The place of a node says which child to take at each node on the way to it.  In preorder the places
are in lexicographic order: a node comes before those below it, and siblings come in their order
(`descendants_exact`).
-/

set_option autoImplicit false

namespace ProofHarness.Syntax.Node

variable {kind : Kind}

/-! ## The stack -/

/-- The order of trees does not matter to their size. -/
theorem sizeAll_reverse (ns : List Node) : sizeAll ns.reverse = sizeAll ns := by
  induction ns with
  | nil => rfl
  | cons n ns ih =>
    rw [List.reverse_cons, sizeAll_append, ih, sizeAll, sizeAll, sizeAll]
    omega

/-- Only an empty forest has no nodes. -/
theorem sizeAll_eq_zero_iff {ns : List Node} : sizeAll ns = 0 ↔ ns = [] := by
  cases ns with
  | nil => simp [sizeAll]
  | cons n ns => simp [sizeAll, size_eq_sizeAll_children]

/-- The walk on its way: the nodes that it has found, and the stack of those that it comes to. -/
structure Visit where
  found : List Node
  stack : List Node

namespace Visit

variable {v w u : Visit} {steps : Nat}

/-- Before the first step the children of the node are on the stack, the first of them last. -/
def start (n : Node) : Visit := ⟨[], n.children.reverse⟩

/-- A step takes the last node off the stack and puts its children there; when there is none left,
the walk stops. -/
def next? (kind : Kind) (v : Visit) : Option Visit :=
  v.stack.getLast?.map fun n =>
    ⟨if n.kind == kind then v.found ++ [n] else v.found, v.stack.dropLast ++ n.children.reverse⟩

/-- The walk stops after a number of steps and has come to `u` then. -/
inductive Stops (kind : Kind) : Nat → Visit → Visit → Prop
  | here {v : Visit} (hnext : v.next? kind = none) : Stops kind 0 v v
  | step {v w u : Visit} {steps : Nat} (hnext : v.next? kind = some w)
      (hrest : Stops kind steps w u) : Stops kind (steps + 1) v u

/-- What has been found and what the nodes on the stack and below them add to it. -/
def ahead (kind : Kind) (v : Visit) : List Node :=
  v.found ++ (preorderAll v.stack.reverse).filter fun m => m.kind == kind

/-- The loop stops when nothing is waiting. -/
theorem next?_eq_none_iff : v.next? kind = none ↔ v.stack = [] := by
  rw [next?, Option.map_eq_none_iff, List.getLast?_eq_none_iff]

/-- One step takes the last node that waits, keeps it if it is of the kind, and puts its children in
its place. -/
theorem next?_eq_some_iff : v.next? kind = some w ↔
    ∃ n waiting, v.stack = waiting ++ [n] ∧
      w = ⟨if n.kind == kind then v.found ++ [n] else v.found, waiting ++ n.children.reverse⟩ := by
  rw [next?, Option.map_eq_some_iff]
  constructor
  · rintro ⟨n, hlast, rfl⟩
    obtain ⟨waiting, hstack⟩ := List.getLast?_eq_some_iff.1 hlast
    rw [hstack, List.dropLast_concat]
    exact ⟨n, waiting, rfl, rfl⟩
  · rintro ⟨n, waiting, hstack, rfl⟩
    rw [hstack, List.dropLast_concat]
    exact ⟨n, List.getLast?_concat, rfl⟩

/-- A step changes nothing about what will have been found in the end. -/
theorem ahead_of_next? (hnext : v.next? kind = some w) : w.ahead kind = v.ahead kind := by
  obtain ⟨n, waiting, hstack, rfl⟩ := next?_eq_some_iff.1 hnext
  have hbefore : preorderAll v.stack.reverse =
      n :: (preorderAll n.children ++ preorderAll waiting.reverse) := by
    rw [hstack, List.reverse_append, List.reverse_singleton, List.singleton_append,
      preorderAll_cons]
  have hafter : preorderAll (waiting ++ n.children.reverse).reverse =
      preorderAll n.children ++ preorderAll waiting.reverse := by
    rw [List.reverse_append, List.reverse_reverse, preorderAll_append]
  rw [ahead, ahead, hbefore, hafter, List.filter_cons]
  split
  · rw [List.append_assoc, List.singleton_append]
  · rfl

/-- A step takes one node away from those that are still to come. -/
theorem sizeAll_of_next? (hnext : v.next? kind = some w) :
    sizeAll v.stack = sizeAll w.stack + 1 := by
  obtain ⟨n, waiting, hstack, rfl⟩ := next?_eq_some_iff.1 hnext
  rw [hstack, sizeAll_append, sizeAll_append, sizeAll_reverse, sizeAll, sizeAll,
    size_eq_sizeAll_children]
  omega

/-- With an empty stack nothing is still to come. -/
theorem stopped (hstack : v.stack = []) : sizeAll v.stack = 0 ∧ v = ⟨v.ahead kind, []⟩ := by
  obtain ⟨found, stack⟩ := v
  obtain rfl : stack = [] := hstack
  exact ⟨by rw [sizeAll], by simp [ahead]⟩

/-- The walk stops after one step for each node on the stack and below it, with all of them found
that are of the kind. -/
theorem stops_iff : Stops kind steps v u ↔ steps = sizeAll v.stack ∧ u = ⟨v.ahead kind, []⟩ := by
  -- A step takes one node off the stack and puts its children there: one node less to come.
  induction steps generalizing v u with
  | zero =>
    constructor
    · intro h
      cases h with
      | here hnext =>
        obtain ⟨hsize, hahead⟩ := stopped (next?_eq_none_iff.1 hnext)
        exact ⟨hsize.symm, hahead⟩
    · rintro ⟨hsize, rfl⟩
      have hstack := sizeAll_eq_zero_iff.1 hsize.symm
      rw [← (stopped hstack).2]
      exact .here (next?_eq_none_iff.2 hstack)
  | succ steps ih =>
    constructor
    · intro h
      cases h with
      | step hnext hrest =>
        obtain ⟨rfl, rfl⟩ := ih.1 hrest
        exact ⟨(sizeAll_of_next? hnext).symm, by rw [ahead_of_next? hnext]⟩
    · rintro ⟨hsize, rfl⟩
      cases hnext : v.next? kind with
      | none =>
        rw [next?_eq_none_iff.1 hnext, sizeAll] at hsize
        omega
      | some w =>
        have hrest := sizeAll_of_next? hnext
        have hsteps : steps = sizeAll w.stack := by omega
        rw [← ahead_of_next? hnext]
        exact .step hnext (ih.2 ⟨hsteps, rfl⟩)

end Visit

/-! ## Places -/

/-- The node at a place: the numbers say which child to take at each node on the way. -/
def at? : Node → List Nat → Option Node
  | n, [] => some n
  | n, i :: place => n.children[i]?.bind fun child => child.at? place

mutual

/-- The nodes of a tree in preorder, each with its place. -/
def placed : Node → List (List Nat × Node)
  | mk kind here name children => ([], mk kind here name children) :: placedFrom 0 children

/-- The nodes of some trees, of which the first is child number `i` of a node, with their places
below that node. -/
def placedFrom (i : Nat) : List Node → List (List Nat × Node)
  | [] => []
  | n :: ns => (placed n).map (fun e => (i :: e.1, e.2)) ++ placedFrom (i + 1) ns

end

/-- A node comes first, at the empty place. -/
theorem placed_eq_cons (n : Node) : n.placed = ([], n) :: placedFrom 0 n.children := by
  cases n with
  | mk kind here name children => rw [placed, Node.children]

/-- The nodes of a forest with their places, tree by tree. -/
theorem placedFrom_cons (i : Nat) (n : Node) (ns : List Node) :
    placedFrom i (n :: ns) = ([i], n) ::
      ((placedFrom 0 n.children).map (fun e => (i :: e.1, e.2)) ++ placedFrom (i + 1) ns) := by
  rw [placedFrom, placed_eq_cons, List.map_cons, List.cons_append]

/-- Without the places this is the preorder. -/
theorem map_snd_placedFrom (i : Nat) (ns : List Node) :
    (placedFrom i ns).map Prod.snd = preorderAll ns := by
  induction ns using forestInduction generalizing i with
  | nil => simp [placedFrom]
  | cons n ns below beside =>
    have hbelow : ((placedFrom 0 n.children).map fun e => (i :: e.1, e.2)).map Prod.snd =
        preorderAll n.children := by
      rw [List.map_map, ← below 0]
      rfl
    rw [placedFrom_cons, List.map_cons, List.map_append, hbelow, beside, preorderAll_cons]

/-- The places of the nodes of some trees begin with the number of the tree and go on with the place
in it. -/
theorem mem_placedFrom_iff {i : Nat} {ns : List Node} {place : List Nat} {m : Node} :
    (place, m) ∈ placedFrom i ns ↔
      ∃ j n rest, ns[j]? = some n ∧ place = (i + j) :: rest ∧ n.at? rest = some m := by
  induction ns using forestInduction generalizing i place with
  | nil => simp [placedFrom]
  | cons n ns below beside =>
    -- The first tree has the places that start with `i`, the trees beside it have later ones.
    have hfirst : (place, m) ∈ ([i], n) ::
        (placedFrom 0 n.children).map (fun e => (i :: e.1, e.2)) ↔
        ∃ rest, place = i :: rest ∧ n.at? rest = some m := by
      rw [List.mem_cons, List.mem_map]
      constructor
      · rintro (h | ⟨⟨inner, m'⟩, hmem, h⟩)
        · obtain ⟨rfl, rfl⟩ := Prod.mk.inj h
          exact ⟨[], rfl, rfl⟩
        · obtain ⟨rfl, rfl⟩ := Prod.mk.inj h
          obtain ⟨j, child, rest, hchild, rfl, hat⟩ := below.1 hmem
          refine ⟨(0 + j) :: rest, rfl, ?_⟩
          rw [at?, Nat.zero_add, hchild, Option.bind_some, hat]
      · rintro ⟨rest, rfl, hat⟩
        cases rest with
        | nil =>
          obtain rfl := Option.some.inj hat
          exact .inl rfl
        | cons j rest =>
          obtain ⟨child, hchild, hat⟩ := Option.bind_eq_some_iff.1 hat
          refine .inr ⟨(j :: rest, m), below.2 ⟨j, child, rest, hchild, ?_, hat⟩, rfl⟩
          rw [Nat.zero_add]
    rw [placedFrom_cons, ← List.cons_append, List.mem_append, hfirst, beside]
    constructor
    · rintro (⟨rest, rfl, hat⟩ | ⟨j, n', rest, hn', rfl, hat⟩)
      · exact ⟨0, n, rest, rfl, rfl, hat⟩
      · exact ⟨j + 1, n', rest, hn', by rw [Nat.add_assoc, Nat.add_comm 1], hat⟩
    · rintro ⟨j, n', rest, hn', rfl, hat⟩
      cases j with
      | zero =>
        obtain rfl := Option.some.inj hn'
        exact .inl ⟨rest, rfl, hat⟩
      | succ j => exact .inr ⟨j, n', rest, hn', by rw [Nat.add_assoc, Nat.add_comm 1], hat⟩

/-- In preorder a node comes before those below it, and siblings come in their order. -/
theorem pairwise_placedFrom (i : Nat) (ns : List Node) :
    ((placedFrom i ns).map Prod.fst).Pairwise (· < ·) := by
  induction ns using forestInduction generalizing i with
  | nil => simp [placedFrom]
  | cons n ns below beside =>
    have hlater : ∀ place ∈ (placedFrom (i + 1) ns).map Prod.fst, ∀ rest, i :: rest < place := by
      intro place hplace rest
      obtain ⟨⟨_, m⟩, hmem, rfl⟩ := List.mem_map.1 hplace
      obtain ⟨j, n', rest', -, rfl, -⟩ := mem_placedFrom_iff.1 hmem
      exact List.Lex.rel (by omega)
    have hbelow : (((placedFrom 0 n.children).map fun e => (i :: e.1, e.2)).map
        Prod.fst).Pairwise (· < ·) := by
      rw [List.map_map, List.pairwise_map]
      exact (List.pairwise_map.1 (below 0)).imp fun h => List.Lex.cons h
    have hinside : ∀ place ∈ ((placedFrom 0 n.children).map fun e => (i :: e.1, e.2)).map Prod.fst,
        ∃ j rest, place = i :: j :: rest := by
      intro place hplace
      obtain ⟨_, hmem, rfl⟩ := List.mem_map.1 hplace
      obtain ⟨⟨_, m⟩, hinner, rfl⟩ := List.mem_map.1 hmem
      obtain ⟨j, child, rest, -, rfl, -⟩ := mem_placedFrom_iff.1 hinner
      exact ⟨_, rest, rfl⟩
    rw [placedFrom_cons, List.map_cons, List.map_append, List.pairwise_cons, List.pairwise_append]
    -- The root before all others, then what is below it, then what is beside it.
    refine ⟨?_, hbelow, beside (i + 1), ?_⟩
    · intro place hplace
      rcases List.mem_append.1 hplace with hplace | hplace
      · obtain ⟨j, rest, rfl⟩ := hinside place hplace
        exact List.Lex.cons .nil
      · exact hlater place hplace []
    · intro place hplace place' hplace'
      obtain ⟨j, rest, rfl⟩ := hinside place hplace
      exact hlater place' hplace' (j :: rest)

/-- The places below a node are those to which children lead. -/
theorem mem_placedFrom_children_iff {n m : Node} {place : List Nat} :
    (place, m) ∈ placedFrom 0 n.children ↔ place ≠ [] ∧ n.at? place = some m := by
  rw [mem_placedFrom_iff]
  cases place with
  | nil => simp
  | cons i rest => simp [at?, Option.bind_eq_some_iff]

/-! ## The nodes of a kind -/

/-- From the children of a node on, the walk takes one step for each descendant, and finds those of
the kind. -/
theorem stops_start_iff {n : Node} {steps : Nat} {v : Visit} :
    Visit.Stops kind steps (.start n) v ↔
      steps = sizeAll n.children ∧ v = ⟨n.descendants kind, []⟩ := by
  have hahead : (Visit.start n).ahead kind = n.descendants kind := by
    rw [Visit.ahead, Visit.start, List.reverse_reverse, List.nil_append, descendants_eq_filter]
  rw [Visit.stops_iff, hahead, Visit.start, sizeAll_reverse]

/-- The places of the nodes of a kind below a node, one for each of them and in their order. -/
def placesOf (n : Node) (kind : Kind) : List (List Nat) :=
  ((placedFrom 0 n.children).filter fun e => e.2.kind == kind).map Prod.fst

/-- The places are those of the nodes that are found, one by one. -/
theorem forall₂_placesOf (n : Node) (kind : Kind) :
    List.Forall₂ (fun place m => n.at? place = some m) (n.placesOf kind) (n.descendants kind) := by
  have hfound : n.descendants kind =
      ((placedFrom 0 n.children).filter fun e => e.2.kind == kind).map Prod.snd := by
    rw [descendants_eq_filter, ← map_snd_placedFrom 0, List.filter_map]
    rfl
  rw [hfound, placesOf, List.forall₂_map_left_iff, List.forall₂_map_right_iff, List.forall₂_same]
  intro e he
  exact (mem_placedFrom_children_iff.1 (List.mem_filter.1 he).1).2

/-- The places come in lexicographic order. -/
theorem pairwise_placesOf (n : Node) (kind : Kind) : (n.placesOf kind).Pairwise (· < ·) :=
  (pairwise_placedFrom 0 n.children).sublist (List.filter_sublist.map Prod.fst)

/-- The places are those of all nodes of the kind but the root. -/
theorem mem_placesOf_iff {n : Node} {place : List Nat} :
    place ∈ n.placesOf kind ↔ place ≠ [] ∧ ∃ m, n.at? place = some m ∧ m.kind = kind := by
  simp only [placesOf, List.mem_map, List.mem_filter, beq_iff_eq]
  constructor
  · rintro ⟨⟨_, m⟩, ⟨hmem, hkind⟩, rfl⟩
    obtain ⟨hne, hat⟩ := mem_placedFrom_children_iff.1 hmem
    exact ⟨hne, m, hat, hkind⟩
  · rintro ⟨hne, m, hat, hkind⟩
    exact ⟨(place, m), ⟨mem_placedFrom_children_iff.2 ⟨hne, hat⟩, hkind⟩, rfl⟩

/-- The walk over the descendants of a node stops after one step for each of them, having found
those of the kind.  These are the nodes of the kind in the recursive preorder: one for each place
below the node where such a node stands, and the places come in their order, each before the places
below it, and those below one child before those below the next. -/
theorem descendants_exact (n : Node) (kind : Kind) :
    (∀ steps v, Visit.Stops kind steps (.start n) v ↔
      steps = sizeAll n.children ∧ v = ⟨n.descendants kind, []⟩) ∧
      n.descendants kind = (preorderAll n.children).filter (fun m => m.kind == kind) ∧
      ∃ places : List (List Nat),
        List.Forall₂ (fun place m => n.at? place = some m) places (n.descendants kind) ∧
          places.Pairwise (· < ·) ∧
          ∀ place, place ∈ places ↔ place ≠ [] ∧ ∃ m, n.at? place = some m ∧ m.kind = kind :=
  ⟨fun _ _ => stops_start_iff, n.descendants_eq_filter kind, n.placesOf kind,
    n.forall₂_placesOf kind, n.pairwise_placesOf kind, fun _ => mem_placesOf_iff⟩

end ProofHarness.Syntax.Node
