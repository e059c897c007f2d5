import ProofHarness.Harness.Basic
import ProofHarness.Syntax.Node
import ProofHarness.Text.Blank

/-!
# Finding harnesses

A function is a harness when, among its siblings after the previous function, an attribute marks
a proof.  The attributes from the first such mark to the function are the run of the harness; what
stands before the mark matters only if it is the mark of a test.
-/

set_option autoImplicit false

namespace ProofHarness

open Attribute Syntax

/-- Whether a node is an attribute that starts a harness. -/
def Syntax.Node.marksProof (n : Node) : Bool := n.isAttribute && Attribute.marksProof n.text

/-- Whether a node is an attribute that marks a test. -/
def Syntax.Node.marksTest (n : Node) : Bool := n.isAttribute && isTestMarker n.text

namespace Harness

/-- The texts of the attributes of a run that concern the verifier. -/
def runTexts (run : List Node) : List String :=
  (run.filter fun n => n.isAttribute && concernsVerifier n.text).map Node.text

/-- Whether the last of some nodes that is no comment marks a test. -/
def endsWithTest (nodes : List Node) : Bool :=
  ((nodes.filter fun n => !n.isComment).getLast?).any Node.marksTest

/-- The harness whose function has the given name, with what stands before its run and the run. -/
def ofRun (before run : List Node) (name : Segment) : Harness :=
  let texts := runTexts run
  let asked := texts.flatMap directives
  { name := name.text
    line := Text.trimmed name.line
    stop := name.stop
    attributes := texts.filter fun text => !isBareProof text
    flags := ⟨true, endsWithTest before || asked.contains .test, asked.contains .stub⟩
    arguments := .empty
    module := none }

/-- The harness that a function is, given what stands between the previous function and it. -/
def ofFunction? (before : List Node) (function : Node) : Option Harness :=
  match before.dropWhile fun n => !n.marksProof with
  | [] => none
  | mark :: run =>
    function.name.map (ofRun (before.takeWhile fun n => !n.marksProof) (mark :: run))

/-- The harnesses among siblings; `before` holds, backwards, those after the last function. -/
def ofSiblingsFrom : List Node → List Node → List Harness
  | _, [] => []
  | before, n :: rest =>
    if n.isFunction then (ofFunction? before.reverse n).toList ++ ofSiblingsFrom [] rest
    else ofSiblingsFrom (n :: before) rest

/-- The harnesses among siblings. -/
def ofSiblings (siblings : List Node) : List Harness := ofSiblingsFrom [] siblings

/-- The harnesses of a tree, found below each node in turn. -/
def ofTree (root : Node) : List Harness :=
  (Node.walk [root]).flatMap fun n => ofSiblings n.children

end Harness

/-- Whether some attribute of a tree starts a harness. -/
def Syntax.Node.mentionsProof (root : Node) : Bool :=
  (root.descendants .attribute).any fun n => Attribute.marksProof n.text

end ProofHarness
