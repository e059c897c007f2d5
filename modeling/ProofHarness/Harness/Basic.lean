import ProofHarness.Attribute.Directive
import ProofHarness.Text.Position

/-!
# Harnesses

The record of one proof harness: the function that it is, the attributes that were given to it,
and what they say about how to run it.
-/

set_option autoImplicit false

namespace ProofHarness

open Attribute
open Text (Position)

/-- How a harness is built. -/
structure Flags where
  isProof : Bool
  /-- Whether it is a test as well. -/
  isTest : Bool
  hasStub : Bool
  deriving DecidableEq, Repr, Inhabited

/-- The arguments that the attributes of a harness give to the verifier. -/
structure Arguments where
  unwind : Option UnwindBound
  solver : Option String
  deriving DecidableEq, Repr, Inhabited

/-- A proof harness. -/
structure Harness where
  /-- The name of its function. -/
  name : String
  /-- The line on which the name stands, without the blanks around it. -/
  line : String
  /-- The place after its name. -/
  stop : Position
  /-- The texts of its attributes that concern the verifier and say more than that it is a proof.
  -/
  attributes : List String
  flags : Flags
  arguments : Arguments
  /-- The path of the modules around it. -/
  module : Option String
  deriving DecidableEq, Repr, Inhabited

namespace Arguments

/-- No arguments. -/
def empty : Arguments := ⟨none, none⟩

/-- What a directive changes in the arguments. -/
def update (a : Arguments) : Directive → Arguments
  | .unwind bound => { a with unwind := some bound }
  | .solver choice => { a with solver := some choice }
  | _ => a

/-- The arguments that directives give, later ones over earlier ones. -/
def ofDirectives (ds : List Directive) : Arguments := ds.foldl update empty

/-- The arguments that attributes give. -/
def ofAttributes (attributes : List String) : Arguments :=
  ofDirectives (attributes.flatMap directives)

end Arguments

/-- The record with the arguments that its attributes give. -/
def Harness.withArguments (h : Harness) : Harness :=
  { h with arguments := .ofAttributes h.attributes }

end ProofHarness
