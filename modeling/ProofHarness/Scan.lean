import ProofHarness.Harness.Extraction
import ProofHarness.Harness.Normal
import ProofHarness.Module.Strategy
import ProofHarness.Syntax.Source

/-!
# Scans

All that is to be known about the harnesses of one text.  What reads source texts, here and wherever
scans are made, is an argument `parse` that gives their trees; the names without it take
`Node.ofSource`.
-/

set_option autoImplicit false

namespace ProofHarness

open Syntax

/-- The harnesses of a text, in normal form. -/
structure Scan where
  /-- The path of the file that holds the text, if it was read from a file. -/
  path : Option String
  harnesses : List Harness
  desyncs : List Desync
  deriving DecidableEq, Repr

namespace Scan

/-- Whether some harness does not fit the text. -/
def hasDesyncs (s : Scan) : Bool := !s.desyncs.isEmpty

/-- Whether there is nothing to report. -/
def isEmpty (s : Scan) : Bool := s.harnesses.isEmpty && s.desyncs.isEmpty

/-- The scan of harnesses in normal form. -/
def ofNormalized (path : Option String) (n : Normalized) : Scan := ⟨path, n.harnesses, n.desyncs⟩

/-- The scan of a tree against a text. -/
def ofTree (root : Node) (text : String) (strategy : ModulePaths) : Scan :=
  ofNormalized none (normalize text (attachModules root strategy (Harness.ofTree root)))

/-- The scan of a source text. -/
def ofSourceWith (parse : String → Node) (text : String) (strategy : ModulePaths) : Scan :=
  ofTree (parse text) text strategy

/-- The scan of a source text. -/
def ofSource : String → ModulePaths → Scan := ofSourceWith Node.ofSource

/-- The scan of the text of a file. -/
def ofFileWith (parse : String → Node) (path text : String) (strategy : ModulePaths) : Scan :=
  { ofSourceWith parse text strategy with path := some path }

/-- The scan of the text of a file. -/
def ofFile : String → String → ModulePaths → Scan := ofFileWith Node.ofSource

end Scan

/-- Whether a source text has an attribute that starts a harness. -/
def mentionsProofWith (parse : String → Node) (text : String) : Bool := (parse text).mentionsProof

/-- Whether a source text has an attribute that starts a harness. -/
def mentionsProof : String → Bool := mentionsProofWith Node.ofSource

end ProofHarness
