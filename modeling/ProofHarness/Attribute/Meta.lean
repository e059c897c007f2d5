import ProofHarness.Lexical.Keyword
import ProofHarness.Lexical.TokenTree
import ProofHarness.Text.Search

/-!
# Meta items

The grammar of what an attribute says: a path, a path with bracketed arguments, or a path with a
value.  `Meta.ofTrees?` reads one meta item from exactly the given trees, `metaList?` a list of
them between commas, and `Meta.ofAttribute?` the item of a text that is one outer attribute.
-/

set_option autoImplicit false

namespace ProofHarness.Attribute

open Text Lexical

/-- A path without generic arguments. -/
structure MetaPath where
  /-- Whether it starts with a double colon. -/
  absolute : Bool
  segments : List (List Char)
  deriving DecidableEq, Repr

/-- Whether a path is this one identifier. -/
def MetaPath.isIdent (p : MetaPath) (name : String) : Bool :=
  !p.absolute && p.segments == [name.toList]

/-- What an attribute says. -/
inductive Meta where
  | path (p : MetaPath)
  | list (p : MetaPath) (d : Delimiter) (arguments : List TokenTree)
  | value (p : MetaPath) (tokens : List TokenTree)

/-- The segments of a path, and the trees after it. -/
def segmentsFrom? : List TokenTree → Option (List (List Char) × List TokenTree)
  | .word w :: .mark ':' true :: .mark ':' _ :: rest =>
    if isSegment w then (segmentsFrom? rest).map fun r => (w :: r.1, r.2) else none
  | .word w :: rest => if isSegment w then some ([w], rest) else none
  | _ => none

/-- The path that some trees start with, and the trees after it.  The word `unsafe` makes a path
of its own. -/
def pathFrom? : List TokenTree → Option (MetaPath × List TokenTree)
  | .mark ':' true :: .mark ':' _ :: rest =>
    (segmentsFrom? rest).map fun r => (⟨true, r.1⟩, r.2)
  | .word w :: rest =>
    if w == "unsafe".toList then some (⟨false, [w]⟩, rest)
    else (segmentsFrom? (.word w :: rest)).map fun r => (⟨false, r.1⟩, r.2)
  | _ => none

/-- The operators between two operands, longer ones before their beginnings. -/
def operators : List (List Char) :=
  ["<<=", ">>=", "..=", "&&", "||", "<<", ">>", "==", "!=", "<=", ">=", "+=", "-=", "*=", "/=",
    "%=", "^=", "&=", "|=", "..", "::", "+", "-", "*", "/", "%", "^", "&", "|", "<", ">", "=",
    "."].map String.toList

/-- Whether trees start with the marks of an operator. -/
def startsWithMarks : List Char → List TokenTree → Bool
  | [], _ => true
  | [c], .mark d _ :: _ => c == d
  | c :: cs, .mark d joint :: rest => c == d && joint && startsWithMarks cs rest
  | _, _ => false

/-- The number of marks of the operator that trees start with. -/
def operatorLength? (trees : List TokenTree) : Option Nat :=
  (operators.find? fun op => startsWithMarks op trees).map List.length

/-- Whether a word may be an operand: an identifier, a path keyword or a truth value. -/
def isOperand (word : List Char) : Bool :=
  isSegment word || word == "true".toList || word == "false".toList

/-- Whether trees go on with an expression, after `skip` trees, at a place where an operand is
`expected` or where one has just ended.  Bracketed groups are taken as they are. -/
def expressionFrom : Nat → Bool → List TokenTree → Bool
  | _, expected, [] => !expected
  | skip + 1, expected, _ :: ts => expressionFrom skip expected ts
  | 0, true, t :: ts =>
    match t with
    | .literal _ | .group _ _ => expressionFrom 0 false ts
    | .word w =>
      if isOperand w then
        match ts with
        | .mark '!' _ :: .group _ _ :: _ => expressionFrom 2 false ts
        | _ => expressionFrom 0 false ts
      else w == "mut".toList && expressionFrom 0 true ts
    | .mark c _ => ['-', '!', '*', '&'].contains c && expressionFrom 0 true ts
    | .lifetime _ => false
  | 0, false, t :: ts =>
    match t with
    | .group _ _ => expressionFrom 0 false ts
    | .word w => w == "as".toList && expressionFrom 0 true ts
    | .mark c _ =>
      if c == '?' then expressionFrom 0 false ts
      else match operatorLength? (t :: ts) with
        | some n => expressionFrom (n - 1) true ts
        | none => false
    | .literal _ | .lifetime _ => false

/-- Whether trees are an expression of operands, operators and groups: literals, paths, calls, field
accesses, casts and macro calls.  Expressions that start with a keyword of their own (`if`, `match`,
loops, blocks with a label, `unsafe`, `return`), closures, and generic arguments in paths are not
recognized; a value that is one of these is taken for no value. -/
def isExpression (trees : List TokenTree) : Bool := expressionFrom 0 true trees

namespace Meta

/-- The meta item with a given path and given trees after it. -/
def ofRest? (p : MetaPath) : List TokenTree → Option Meta
  | [] => some (.path p)
  | [.group d arguments] => some (.list p d arguments)
  | .mark '=' _ :: rest => if isExpression rest then some (.value p rest) else none
  | _ => none

/-- The meta item that consists of exactly the given trees. -/
def ofTrees? (trees : List TokenTree) : Option Meta :=
  (pathFrom? trees).bind fun r => ofRest? r.1 r.2

/-- The meta item of a text that is exactly one outer attribute. -/
def ofAttribute? (text : List Char) : Option Meta :=
  match trees? (trim text) with
  | some [.mark '#' _, .group .bracket inner] => ofTrees? inner
  | _ => none

end Meta

/-- Puts a tree in front of the first of some pieces. -/
def extendPiece (t : TokenTree) : List (List TokenTree) → List (List TokenTree)
  | [] => [[t]]
  | piece :: pieces => (t :: piece) :: pieces

/-- The pieces of a list of trees between its commas; one comma at the end counts for nothing. -/
def commaPieces : List TokenTree → List (List TokenTree)
  | [] => []
  | t :: ts => if t.isMark ',' then [] :: commaPieces ts else extendPiece t (commaPieces ts)

/-- The pieces between the commas of a list of trees, each with its reading as a meta item;
`none` if one of them is none. -/
def metaList? (trees : List TokenTree) : Option (List (List TokenTree × Meta)) :=
  (commaPieces trees).mapM fun piece => (Meta.ofTrees? piece).map fun m => (piece, m)

end ProofHarness.Attribute
