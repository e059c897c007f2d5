import ProofHarness.Attribute.Meta
import ProofHarness.Attribute.Payload

/-!
# Directives

What an attribute tells the verifier.  `Directive.ofText` reads one directive off a text by the
name it contains; `directives` first takes a conditional attribute apart into the directives that
it bundles.
-/

set_option autoImplicit false

namespace ProofHarness.Attribute

open Text Lexical

/-- The name whose presence makes an attribute the start of a harness. -/
def proofName : String := "kani::proof"

/-- The beginning of the name of everything that concerns the verifier. -/
def toolName : String := "kani::"

/-- How often a loop is unrolled. -/
inductive UnwindBound where
  | bounded (n : Nat)
  /-- A bound is asked for, but no number below 2^32 is given for it. -/
  | unspecified
  deriving DecidableEq, Repr

/-- The number of a bound. -/
def UnwindBound.value? : UnwindBound → Option Nat
  | .bounded n => some n
  | .unspecified => none

/-- The bound that a text gives: the first number in the payload of `unwind`. -/
def unwindBound (text : String) : UnwindBound :=
  match (payload? "unwind".toList text.toList).bind fun p => readWord (firstDecimals p) with
  | some n => .bounded n
  | none => .unspecified

/-- The solver that a payload names by a string, by an identifier, or by a string after `bin =`.
-/
def namedSolver? (payload : List Char) : Option (List Char) :=
  match trees? payload with
  | some [.literal text] => stringValue? text
  | some [.word w] => if isIdentifier w then some w else none
  | some [.word w, .mark '=' _, .literal text] =>
    if w == "bin".toList then stringValue? text else none
  | _ => none

/-- The solver that a text gives: the payload of `solver`, taken as it is where it does not name
a solver. -/
def solverChoice? (text : String) : Option String :=
  (payload? "solver".toList text.toList).map fun p =>
    String.ofList ((namedSolver? (trim p)).getD (trim p))

/-- Whether a text is the marker of a test. -/
def isTestMarker (text : String) : Bool :=
  match Meta.ofAttribute? text.toList with
  | some (.path p) => p.isIdent "test"
  | some _ => false
  | none => compact text.toList == "test".toList || compact text.toList == "#[test]".toList

/-- Whether a text is an attribute that marks a proof and says nothing else. -/
def isBareProof (text : String) : Bool :=
  match Meta.ofAttribute? text.toList with
  | some (.path p) => p.segments == ["kani".toList, "proof".toList]
  | some _ => false
  | none => compact text.toList == "#[kani::proof]".toList

/-- What one attribute, or one part of a conditional attribute, asks for. -/
inductive Directive where
  | proof
  | test
  | unwind (bound : UnwindBound)
  | solver (choice : String)
  | stub
  | shouldPanic
  | cover
  | unrecognized
  deriving DecidableEq, Repr

/-- The directive of a text; of several names in it the first in this order counts. -/
def Directive.ofText (text : String) : Directive :=
  if mentions proofName text then .proof
  else if mentions "kani::unwind" text && (payload? "unwind".toList text.toList).isSome then
    .unwind (unwindBound text)
  else if mentions "kani::solver" text then .solver ((solverChoice? text).getD "")
  else if mentions "kani::stub" text then .stub
  else if mentions "kani::should_panic" text then .shouldPanic
  else if mentions "kani::cover" text then .cover
  else if isTestMarker text then .test
  else .unrecognized

/-- The arguments of a meta item that is a conditional attribute. -/
def conditionalArguments? : Meta → Option (List TokenTree)
  | .list p _ arguments => if p.isIdent "cfg_attr" then some arguments else none
  | _ => none

/-- The directives that a conditional attribute bundles, each without its blanks; `none` for a
text that is no conditional attribute or does not concern the verifier. -/
def bundled? (text : String) : Option (List String) :=
  if mentions toolName text then
    ((Meta.ofAttribute? text.toList).bind conditionalArguments?).bind fun arguments =>
      (metaList? arguments).map fun items =>
        (items.drop 1).map fun item => String.ofList (TokenTree.compactAll item.1)
  else none

/-- The directives of an attribute: those that it bundles, or its own. -/
def directives (text : String) : List Directive :=
  match bundled? text with
  | some parts => parts.map Directive.ofText
  | none => [Directive.ofText text]

/-- Whether an attribute concerns the verifier. -/
def concernsVerifier (text : String) : Bool := mentions toolName text

/-- Whether an attribute starts a harness. -/
def marksProof (text : String) : Bool := mentions proofName text

/-- A text that bundles nothing has one directive, its own. -/
theorem directives_of_bundled?_eq_none {text : String} (h : bundled? text = none) :
    directives text = [Directive.ofText text] := by
  simp [directives, h]

/-- The directives of a text that bundles some are theirs. -/
theorem directives_of_bundled?_eq_some {text : String} {parts : List String}
    (h : bundled? text = some parts) : directives text = parts.map Directive.ofText := by
  simp [directives, h]

end ProofHarness.Attribute
