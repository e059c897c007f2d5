import ProofHarness.Harness.Basic
import ProofHarness.Module.Chain
import ProofHarness.Text.Fold

/-!
# Module paths of harnesses

The two ways to say in which modules a harness lies: by the name of its function, or by its place.
-/

set_option autoImplicit false

namespace ProofHarness

open Syntax

/-- How the module path of a harness is found. -/
inductive ModulePaths where
  /-- By the name of its function: all modules with such a function below them. -/
  | reverseIndex
  /-- By its place: the modules around it. -/
  | ancestorChain
  deriving DecidableEq, Repr, Inhabited

namespace ModulePaths

/-- The word for a strategy. -/
def name : ModulePaths → String
  | .reverseIndex => "reverse-index"
  | .ancestorChain => "ancestor-chain"

/-- All strategies. -/
def all : List ModulePaths := [.reverseIndex, .ancestorChain]

/-- The strategy that a word in any case stands for. -/
def ofString? (text : String) : Option ModulePaths :=
  all.find? fun s => Text.isWordInAnyCase s.name text

/-- What is said of a word that stands for no strategy. -/
def unknownMessage (text : String) : String :=
  "Unknown module path strategy: " ++ text ++ ". Expected: reverse-index, ancestor-chain"

end ModulePaths

/-- The harnesses with the module paths that a strategy gives them in a tree. -/
def attachModules (root : Node) (strategy : ModulePaths) (hs : List Harness) : List Harness :=
  match strategy with
  | .reverseIndex =>
    let paths := indexedPaths (Enclosure.ofTree root)
    hs.map fun h => { h with module := Table.get? paths h.name }
  | .ancestorChain =>
    let paths := chainPaths root
    hs.map fun h => { h with module := Table.get? paths h.stop }

end ProofHarness
