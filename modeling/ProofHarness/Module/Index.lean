import ProofHarness.Syntax.Node
import ProofHarness.Table
import ProofHarness.Text.Search

/-!
# The index of functions by name

For each module of a tree the names of the functions below it, and the inverse of that: for each
function name the modules with such a function below them, in the order of the tree.  Functions of
one name share one entry.
-/

set_option autoImplicit false

namespace ProofHarness

open Syntax

/-- A module and the names of the functions below it, each once. -/
structure Enclosure where
  module : String
  functions : List String
  deriving DecidableEq, Repr

namespace Enclosure

/-- A module with function names of which only the first of equal ones is kept. -/
def ofNames (module : String) (functions : List String) : Enclosure :=
  ⟨module, functions.eraseDups⟩

/-- The names of the functions below a node. -/
def functionNames (n : Node) : List String :=
  (n.descendants .function).filterMap fun f => f.name.map Segment.text

/-- The modules below a node that have a name, each with the functions below it. -/
def ofTree (root : Node) : List Enclosure :=
  (root.descendants .module).filterMap fun m =>
    m.name.map fun name => ofNames name.text (functionNames m)

/-- Adds a module at the end of the modules of a function. -/
def addTo (module : String) (index : List (String × List String)) (function : String) :
    List (String × List String) :=
  Table.alter function (fun known => known.getD [] ++ [module]) index

/-- The modules of each function, functions and modules in the order in which they are listed. -/
def invert (entries : List Enclosure) : List (String × List String) :=
  entries.foldl (fun index e => e.functions.foldl (addTo e.module) index) []

end Enclosure

/-- The text between the names of a path. -/
def pathSeparator : String := "::"

/-- The path made of module names. -/
def joinModules (modules : List String) : String := Text.joined pathSeparator modules

/-- The path of each function that is listed for a module. -/
def indexedPaths (entries : List Enclosure) : List (String × String) :=
  (Enclosure.invert entries).map fun entry => (entry.1, joinModules entry.2)

end ProofHarness
