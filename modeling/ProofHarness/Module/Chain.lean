import ProofHarness.Module.Index

/-!
# The chain of modules around each function

For each function of a tree that lies in a module, the names of the modules around it from the
outermost to the innermost, keyed by the place where the name of the function ends.  The root and
modules without a name contribute nothing.
-/

set_option autoImplicit false

namespace ProofHarness

open Syntax
open Text (Position)

/-- The names of the modules around the children of a node. -/
def innerChain (chain : List String) (n : Node) : List String :=
  if n.isModule then
    match n.name with
    | some name => chain ++ [name.text]
    | none => chain
  else chain

/-- The entry for a function inside the given modules. -/
def chainOf? (chain : List String) (n : Node) : Option (Position × List String) :=
  if n.isFunction && !chain.isEmpty then n.name.map fun name => (name.stop, chain) else none

/-- The number of nodes of the trees that wait to be visited. -/
def waitingSize (waiting : List (Node × List String)) : Nat :=
  Node.sizeAll (waiting.map Prod.fst)

/-- The entries for the functions below some nodes, each node with the modules around its
children.  The children of one node are taken from right to left, before any nodes below them. -/
def chainEntries : List (Node × List String) → List (Position × List String)
  | [] => []
  | (n, chain) :: waiting =>
    n.children.reverse.filterMap (chainOf? chain) ++
      chainEntries (n.children.map (fun c => (c, innerChain chain c)) ++ waiting)
termination_by waiting => waitingSize waiting
decreasing_by
  simp only [waitingSize, List.map_append, List.map_map, List.map_cons, Node.sizeAll_append,
    Node.sizeAll, Node.size_eq_sizeAll_children, Function.comp_def, List.map_id']
  omega

/-- The chain of each function in a module; of several at one place the last entry counts. -/
def moduleChains (root : Node) : List (Position × List String) :=
  (chainEntries [(root, [])]).foldl (fun table entry => Table.put entry.1 entry.2 table) []

/-- The path of each function in a module. -/
def chainPaths (root : Node) : List (Position × String) :=
  (moduleChains root).map fun entry => (entry.1, joinModules entry.2)

end ProofHarness
