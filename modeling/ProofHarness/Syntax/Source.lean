import ProofHarness.Lexical.Keyword
import ProofHarness.Lexical.Token
import ProofHarness.Syntax.Node
import ProofHarness.Text.Line

/-!
# Reading sources

The syntax tree of a source text.  Tokens are grouped by their brackets, and within each group the
pieces that form an attribute, a macro, a function or a module are joined, from right to left: when
a piece is met, what follows it is joined already.  What is in a macro or an attribute is no part
of the tree.

A text that cannot be cut into tokens, or whose brackets do not match, has a tree without children.
-/

set_option autoImplicit false

namespace ProofHarness.Syntax

open Text Lexical

/-- The line on which a token starts. -/
def lineOf (t : Token) : String := String.ofList (lineAround t.before (t.text ++ t.after))

/-- The place after a token. -/
def stopOf (t : Token) : Position := t.text.foldl Position.next t.start

/-- The stretch of one token. -/
def Segment.ofToken (t : Token) : Segment := ⟨String.ofList t.text, lineOf t, t.start, stopOf t⟩

/-- The stretch from one token to another. -/
def Segment.between (first last : Token) : Segment where
  text := String.ofList
    ((first.text ++ first.after).take (last.index + last.text.length - first.index))
  line := lineOf first
  start := first.start
  stop := stopOf last

/-- The stretch of a node from one token to another.  What it says is kept only of attributes,
functions and modules; of other nodes the place is enough. -/
def Segment.ofKind (kind : Kind) (first last : Token) : Segment :=
  match kind with
  | .attribute | .function | .module => .between first last
  | _ => ⟨"", "", first.start, stopOf last⟩

/-- The part that a piece of source can play in a larger one. -/
inductive Role where
  | word (text : List Char)
  | mark (c : Char)
  | literal
  | group (d : Delimiter)
  /-- A function or module, with or without a body. -/
  | item
  | comment
  | closed
  deriving DecidableEq, Repr

/-- A stretch of tokens that was read as one node. -/
structure Piece where
  role : Role
  first : Token
  last : Token
  node : Node

/-- The role of a single token. -/
def roleOf (t : Token) : Role :=
  match t.kind with
  | .word => .word t.text
  | .mark => .mark (t.text.headD ' ')
  | .literal => .literal
  | .lineComment | .blockComment => .comment
  | _ => .closed

/-- The kind of the node of a single token. -/
def kindOf (t : Token) : Kind :=
  match t.kind with
  | .lineComment => .lineComment
  | .blockComment => .blockComment
  | _ => .other "token"

/-- The piece that consists of one token. -/
def Piece.ofToken (t : Token) : Piece :=
  ⟨roleOf t, t, t, .mk (kindOf t) (.ofKind (kindOf t) t t) none []⟩

/-- The piece of a given kind and role that reaches from one token to another. -/
def Piece.build (role : Role) (kind : Kind) (first last : Token) (name : Option Segment)
    (children : List Piece) : Piece :=
  ⟨role, first, last, .mk kind (.ofKind kind first last) name (children.map Piece.node)⟩

/-- The pieces after any comments. -/
def pastComments (ps : List Piece) : List Piece := ps.dropWhile (·.role == .comment)

/-- An attribute whose number sign is met.  One with an exclamation mark is about what surrounds
it and has a kind of its own. -/
def attributeFrom? (sign : Piece) (later : List Piece) : Option (List Piece) :=
  match pastComments later with
  | q :: rest =>
    if q.role == .group .bracket then
      some (.build .closed .attribute sign.first q.last none [] :: rest)
    else if q.role == .mark '!' then
      match pastComments rest with
      | r :: rest =>
        if r.role == .group .bracket then
          some (.build .closed (.other "inner_attribute_item") sign.first r.last none [] :: rest)
        else none
      | [] => none
    else none
  | [] => none

/-- A macro whose name is met: an exclamation mark and a group follow it.  Where a macro is
defined, the defined name stands in front of the group. -/
def macroFrom? (name : Piece) (defines : Bool) (later : List Piece) : Option (List Piece) :=
  match pastComments later with
  | q :: rest =>
    if q.role == .mark '!' then
      match pastComments (if defines then (pastComments rest).drop 1 else rest) with
      | r :: rest =>
        match r.role with
        | .group _ =>
          some (.build .closed (.other "macro_invocation") name.first r.last none [] :: rest)
        | _ => none
      | [] => none
    else none
  | [] => none

/-- The depth in angle brackets after a piece; the second part of an arrow closes nothing. -/
def angleDepth (depth : Nat) (arrow : Bool) (p : Piece) : Nat :=
  if p.role == .mark '<' then depth + 1
  else if p.role == .mark '>' && !arrow then depth - 1
  else depth

/-- Whether a piece cannot stand between angle brackets. -/
def endsAngles (p : Piece) : Bool :=
  p.role == .mark ';' || p.role == .group .brace || p.role == .item

/-- The pieces up to the angle bracket that closes the one in front of them, `last` being the mark
in front of the first.  Gives them, the closing bracket, and the pieces after. -/
def anglesFrom? : Nat → Option Char → List Piece → Option (List Piece × Piece × List Piece)
  | _, _, [] => none
  | depth, last, p :: ps =>
    if endsAngles p || (p.role == .mark '>' && last == some '=') then none
    else if p.role == .mark '>' && last != some '-' && depth == 0 then some ([], p, ps)
    else
      let mark :=
        match p.role with
        | .mark c => some c
        | _ => none
      (anglesFrom? (angleDepth depth (last == some '-') p) mark ps).map fun r => (p :: r.1, r.2)

/-- Type parameters whose opening bracket is met.  They are told from a comparison by an attribute
in them, and it is only for their attributes that they matter. -/
def parametersFrom? (bracket : Piece) (later : List Piece) : Option (List Piece) :=
  (anglesFrom? 0 none later).bind fun (inside, stop, after) =>
    if inside.any fun p => p.node.isAttribute then
      some (.build .closed (.other "type_parameters") bracket.first stop.last none inside :: after)
    else none

/-- The pieces of a header up to its end: outside angle brackets, a body in braces or a semicolon.
Gives the pieces with the end, whether it is a body, and the pieces after. -/
def headerFrom? : Nat → Bool → List Piece → Option (List Piece × Piece × List Piece)
  | _, _, [] => none
  | depth, arrow, p :: ps =>
    if depth == 0 && (p.role == .group .brace || p.role == .mark ';') then some ([], p, ps)
    else
      (headerFrom? (angleDepth depth arrow p) (p.role == .mark '-') ps).map fun r =>
        (p :: r.1, r.2)

/-- A function whose keyword is met; its header has a list of parameters.  One without a body is
only the signature of one. -/
def functionFrom? (keyword : Piece) (later : List Piece) : Option (List Piece) :=
  match pastComments later with
  | name :: rest =>
    match name.role with
    | .word _ =>
      (headerFrom? 0 false rest).bind fun (header, stop, after) =>
        let kind : Kind :=
          if stop.role == .mark ';' then .other "function_signature_item" else .function
        if header.any fun p => p.role == .group .paren then
          some (.build .item kind keyword.first stop.last (some (.ofToken name.first))
            (name :: (header ++ [stop])) :: after)
        else none
    | _ => none
  | [] => none

/-- A module whose keyword is met. -/
def moduleFrom? (keyword : Piece) (later : List Piece) : Option (List Piece) :=
  match pastComments later with
  | name :: rest =>
    match name.role, pastComments rest with
    | .word _, stop :: after =>
      if stop.role == .group .brace || stop.role == .mark ';' then
        some (.build .item .module keyword.first stop.last (some (.ofToken name.first))
          [name, stop] :: after)
      else none
    | _, _ => none
  | [] => none

/-- The words that may stand in front of the keyword of an item. -/
def qualifiers : List (List Char) :=
  ["pub", "crate", "const", "async", "unsafe", "default", "extern"].map String.toList

/-- Whether a piece may stand between a qualifier and what it qualifies: the scope of a
visibility, or the name of a calling convention. -/
def refines (word : List Char) (p : Piece) : Bool :=
  (word == "pub".toList && p.role == .group .paren) ||
    (word == "extern".toList && p.role == .literal)

/-- An item with one more token in front of it, which belongs to it. -/
def Piece.extended (qualifier item : Piece) : Piece :=
  ⟨.item, qualifier.first, item.last,
    .mk item.node.kind (.ofKind item.node.kind qualifier.first item.last) item.node.name
      item.node.children⟩

/-- An item one of whose qualifiers is met. -/
def qualifiedFrom? (qualifier : Piece) (word : List Char) (later : List Piece) :
    Option (List Piece) :=
  match pastComments later with
  | p :: rest =>
    match pastComments (if refines word p then rest else p :: rest) with
    | item :: after =>
      if item.role == .item then some (qualifier.extended item :: after) else none
    | [] => none
  | [] => none

/-- What is made of a word and the pieces after it. -/
def wordFrom? (p : Piece) (word : List Char) (later : List Piece) : Option (List Piece) :=
  if word == "fn".toList then functionFrom? p later
  else if word == "mod".toList then moduleFrom? p later
  else
    (if qualifiers.contains word then qualifiedFrom? p word later else none).or
      (if isIdentifier word then macroFrom? p (word == "macro_rules".toList) later else none)

/-- Puts a piece in front of pieces that are joined already. -/
def joinPiece (p : Piece) (later : List Piece) : List Piece :=
  let joined :=
    match p.role with
    | .word word => wordFrom? p word later
    | .mark '#' => attributeFrom? p later
    | .mark '<' => parametersFrom? p later
    | _ => none
  joined.getD (p :: later)

/-- Joins the pieces of one group, which are given backwards. -/
def arrange (backwards : List Piece) : List Piece :=
  backwards.foldl (fun later p => joinPiece p later) []

/-- Groups tokens by their brackets.  `outer` holds the open brackets, each with the pieces before
it, and `done` the pieces of the innermost group; pieces are held backwards. -/
def piecesFrom : List (Token × Delimiter × List Piece) → List Piece → List Token →
    Option (List Piece)
  | [], done, [] => some (arrange done)
  | _ :: _, _, [] => none
  | outer, done, t :: ts =>
    match t.kind with
    | .blank => piecesFrom outer done ts
    | .opening d => piecesFrom ((t, d, done) :: outer) [] ts
    | .closing d =>
      match outer with
      | [] => none
      | (first, opened, before) :: rest =>
        if opened == d then
          piecesFrom rest
            (.build (.group d) (.other "group") first t none (arrange done) :: before) ts
        else none
    | _ => piecesFrom outer (.ofToken t :: done) ts

/-- The line with which a text that can be run as a program names its runner, without the line
feed that ends it. -/
def runnerLine? : List Char → Option (List Char)
  | '#' :: '!' :: rest =>
    if rest.head? != some '[' && rest.contains '\n' then
      some ('#' :: '!' :: rest.takeWhile (· != '\n'))
    else none
  | _ => none

/-- The node of such a line. -/
def runnerNode (line : List Char) : Node :=
  .mk (.other "shebang") ⟨String.ofList line, String.ofList line, .zero, .after line.reverse⟩
    none []

/-- The nodes on the outermost level of a text. -/
def nodes? (s : List Char) : Option (List Node) :=
  match runnerLine? s with
  | some line =>
    (tokensFrom line.length .zero s).bind fun ts =>
      (piecesFrom [] [] ts).map fun ps => runnerNode line :: ps.map Piece.node
  | none =>
    (tokens? s).bind fun ts => (piecesFrom [] [] ts).map fun ps => ps.map Piece.node

/-- The syntax tree of a text. -/
def Node.ofSource (text : String) : Node :=
  let s := text.toList
  .mk (.other "source_file") ⟨text, String.ofList (lineRest s), .zero, .after s.reverse⟩ none
    ((nodes? s).getD [])

end ProofHarness.Syntax
