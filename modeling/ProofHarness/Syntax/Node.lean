import ProofHarness.Text.Position

/-!
# Syntax trees

A node has a kind, a place in its text, the place of its name if it has a name, and children.
Only attributes, functions, modules and comments are told apart from the rest.

`walk` visits the nodes of some trees with a list of the trees that are still to be visited, so
that the depth of a tree does not matter; every node comes before the nodes below it, and siblings
from left to right.
-/

set_option autoImplicit false

namespace ProofHarness.Syntax

open Text (Position)

/-- The kinds of nodes. -/
inductive Kind where
  | attribute
  | function
  | module
  | lineComment
  | blockComment
  | other (name : String)
  deriving DecidableEq, Repr

namespace Kind

/-- The name of a kind. -/
def name : Kind → String
  | .attribute => "attribute_item"
  | .function => "function_item"
  | .module => "mod_item"
  | .lineComment => "line_comment"
  | .blockComment => "block_comment"
  | .other name => name

/-- The kinds that have names of their own. -/
def known : List Kind := [.attribute, .function, .module, .lineComment, .blockComment]

/-- The kind with a given name. -/
def ofName (name : String) : Kind :=
  (known.find? fun kind => kind.name == name).getD (.other name)

end Kind

/-- A stretch of a text: what it says, the line on which it starts, and its two ends. -/
structure Segment where
  text : String
  line : String
  start : Position
  stop : Position
  deriving DecidableEq, Repr, Inhabited

/-- A node of a syntax tree. -/
inductive Node where
  | mk (kind : Kind) (here : Segment) (name : Option Segment) (children : List Node)

instance : Inhabited Node := ⟨.mk .attribute default none []⟩

namespace Node

/-- What the node is. -/
def kind : Node → Kind
  | mk kind _ _ _ => kind

/-- The stretch of text that the node covers. -/
def here : Node → Segment
  | mk _ here _ _ => here

/-- The stretch of text that is the node's name. -/
def name : Node → Option Segment
  | mk _ _ name _ => name

/-- The nodes right below it. -/
def children : Node → List Node
  | mk _ _ _ children => children

/-- What the node says. -/
def text (n : Node) : String := n.here.text

/-- Whether it is an outer attribute. -/
def isAttribute (n : Node) : Bool := n.kind == .attribute

/-- Whether it is a function. -/
def isFunction (n : Node) : Bool := n.kind == .function

/-- Whether it is a module. -/
def isModule (n : Node) : Bool := n.kind == .module

/-- Whether it is a comment of either kind. -/
def isComment (n : Node) : Bool := n.kind == .lineComment || n.kind == .blockComment

mutual

/-- The number of nodes of a tree. -/
def size : Node → Nat
  | mk _ _ _ children => sizeAll children + 1

/-- The number of nodes of some trees. -/
def sizeAll : List Node → Nat
  | [] => 0
  | n :: ns => size n + sizeAll ns

end

/-- The nodes of two forests add up. -/
theorem sizeAll_append (ns ms : List Node) : sizeAll (ns ++ ms) = sizeAll ns + sizeAll ms := by
  induction ns with
  | nil => simp [sizeAll]
  | cons n ns ih => simp [sizeAll, ih, Nat.add_assoc]

/-- A node counts for one more than what is below it. -/
theorem size_eq_sizeAll_children (n : Node) : n.size = sizeAll n.children + 1 := by
  cases n with
  | mk kind here name children => simp [size, Node.children]

/-- The nodes of some trees, each before the nodes below it. -/
def walk : List Node → List Node
  | [] => []
  | n :: waiting => n :: walk (n.children ++ waiting)
termination_by waiting => sizeAll waiting
decreasing_by
  rw [sizeAll_append, sizeAll, size_eq_sizeAll_children]
  omega

/-- The nodes of a given kind below a node, in the order of `walk`. -/
def descendants (n : Node) (kind : Kind) : List Node :=
  (walk n.children).filter fun m => m.kind == kind

end Node

end ProofHarness.Syntax
