import ProofHarness.Text.Search

/-!
# Regular expressions

The part of the language of regular expressions that consists of characters, the dot, stars after
these, and the two anchors.  `Regex.ofText?` reads an expression, and `Regex.escape` writes a text
as an expression that stands for this text.  An expression matches a text if it matches some stretch
of it (`Regex.isMatch`).

`Regex.row` answers for all places of a text at once, so that an expression with many stars costs no
more than its length times the length of the text.
-/

set_option autoImplicit false

namespace ProofHarness.Text

namespace Regex

/-- What stands for one character. -/
inductive Atom where
  /-- This character. -/
  | literal (c : Char)
  /-- Any character but a line feed. -/
  | any
  deriving DecidableEq, Repr

/-- Whether it stands for a character. -/
def Atom.accepts : Atom → Char → Bool
  | .literal d, c => c == d
  | .any, c => c != '\n'

/-- A part of an expression. -/
inductive Item where
  /-- The start of the text. -/
  | start
  /-- The end of the text. -/
  | stop
  | one (a : Atom)
  /-- Any number of characters, none of them included. -/
  | many (a : Atom)
  deriving DecidableEq, Repr

end Regex

/-- A regular expression: what its items match, one after the other. -/
structure Regex where
  items : List Regex.Item
  deriving DecidableEq, Repr

namespace Regex

/-! ## Writing and reading -/

/-- The characters that have a meaning of their own somewhere in regular expressions. -/
def metaCharacters : List Char :=
  ['\\', '.', '+', '*', '?', '(', ')', '|', '[', ']', '\x7b', '\x7d', '^', '$', '#', '&', '-', '~']

/-- Whether a character has a meaning of its own. -/
def isMeta (c : Char) : Bool := metaCharacters.contains c

/-- A character as an expression that stands for it. -/
def escapeChar (c : Char) : List Char := if isMeta c then ['\\', c] else [c]

/-- A text as an expression that stands for it. -/
def escape (s : List Char) : List Char := s.flatMap escapeChar

/-- A sign of an expression. -/
inductive Sign where
  | start
  | stop
  | star
  | atom (a : Atom)
  deriving DecidableEq, Repr

/-- The sign that a character is without a backslash before it; `none` for those that make groups,
classes, alternatives and other counts, which are not read here. -/
def sign? (c : Char) : Option Sign :=
  if c == '^' then some .start
  else if c == '$' then some .stop
  else if c == '*' then some .star
  else if c == '.' then some (.atom .any)
  else if ['\\', '+', '?', '(', ')', '|', '[', '\x7b'].contains c then none
  else some (.atom (.literal c))

/-- The signs of an expression; a character with a meaning of its own loses it after a backslash. -/
def signs? : List Char → Option (List Sign)
  | [] => some []
  | '\\' :: c :: cs =>
    if isMeta c then (signs? cs).map fun signs => .atom (.literal c) :: signs else none
  | c :: cs => (sign? c).bind fun sign => (signs? cs).map fun signs => sign :: signs

/-- The items that signs make: a star goes with the character before it. -/
def items? : List Sign → Option (List Item)
  | [] => some []
  | .start :: signs => (items? signs).map fun items => .start :: items
  | .stop :: signs => (items? signs).map fun items => .stop :: items
  | .atom a :: .star :: signs => (items? signs).map fun items => .many a :: items
  | .atom a :: signs => (items? signs).map fun items => .one a :: items
  | .star :: _ => none

/-- Reads an expression; `fits` tells of which texts the matcher stays within the limits on its
size.
-/
def ofText? (fits : List Char → Bool) (text : List Char) : Option Regex :=
  if fits text then ((signs? text).bind items?).map fun items => ⟨items⟩ else none

/-! ## Searching -/

/-- The row without items: nothing is matched everywhere. -/
def everywhere : List Char → List Bool
  | [] => [true]
  | _ :: cs => true :: everywhere cs

/-- The row of expressions that start with the start of the text, from the row of what follows. -/
def startRow (first : Bool) : List Bool → List Bool
  | [] => []
  | here :: later => (first && here) :: later.map fun _ => false

/-- The row of expressions that start with the end of the text, from the row of what follows. -/
def stopRow : List Char → List Bool → List Bool
  | [], row => row
  | _ :: cs, row => false :: stopRow cs row.tail

/-- The row of expressions that start with a character, from the row of what follows. -/
def oneRow (a : Atom) : List Char → List Bool → List Bool
  | [], _ => [false]
  | c :: cs, row => (a.accepts c && row.tail.headD false) :: oneRow a cs row.tail

/-- The row of expressions that start with any number of characters, from the row of what follows:
these match at a place where the rest does, or where they can take one more character. -/
def manyRow (a : Atom) : List Char → List Bool → List Bool
  | c :: cs, here :: later =>
    let row := manyRow a cs later
    (here || (a.accepts c && row.headD false)) :: row
  | _, row => row

/-- For each place of a text, from its start to its end, whether items match from there on; the
first place is the start of the whole text if `first` holds. -/
def row : List Item → Bool → List Char → List Bool
  | [], _, s => everywhere s
  | .start :: items, first, s => startRow first (row items first s)
  | .stop :: items, first, s => stopRow s (row items first s)
  | .one a :: items, first, s => oneRow a s (row items first s)
  | .many a :: items, first, s => manyRow a s (row items first s)

/-- Whether an expression matches some stretch of a text. -/
def isMatch (r : Regex) (text : List Char) : Bool := (row r.items true text).any id

example : (ofText? (fun _ => true) "^a\\.b.*$".toList).map Regex.items =
    some [.start, .one (.literal 'a'), .one (.literal '.'), .one (.literal 'b'), .many .any,
      .stop] := by
  decide

example :
    isMatch ⟨[.one (.literal 'b'), .many .any, .one (.literal 'b')]⟩ "abba".toList = true := by
  decide

end Regex

end ProofHarness.Text
