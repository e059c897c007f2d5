import ProofHarness.Text.Search

/-!
# Paths

A path is kept as it was written.  Its components decide what it is equal to and how it is
ordered: doubled separators and dots within it do not count.
-/

set_option autoImplicit false

namespace ProofHarness.Disk

open Text

/-- A component of a path. -/
inductive Component where
  | root
  /-- A dot at the beginning. -/
  | current
  | parent
  | name (text : List Char)
  deriving DecidableEq, Repr

namespace Component

/-- The component that a piece between separators stands for. -/
def ofPiece? (piece : List Char) : Option Component :=
  if piece == [] || piece == ['.'] then none
  else if piece == ['.', '.'] then some .parent
  else some (.name piece)

/-- The rank of the sorts of components. -/
def rank : Component → Nat
  | .root => 0
  | .current => 1
  | .parent => 2
  | .name _ => 3

/-- The text of a component that is a name. -/
def text : Component → List Char
  | .name text => text
  | _ => []

/-- Whether a component comes before another: by its sort, and names by their characters. -/
def before (a b : Component) : Bool :=
  a.rank < b.rank || (a.rank == b.rank && decide (a.text < b.text))

end Component

/-- The components of a path. -/
def components (path : String) : List Component :=
  let s := path.toList
  let pieces := splitOn ['/'] s
  let lead : List Component :=
    if s.head? == some '/' then [.root]
    else if pieces.head? == some ['.'] then [.current]
    else []
  lead ++ pieces.filterMap Component.ofPiece?

/-- Whether a list of components does not come after another. -/
def componentsLe : List Component → List Component → Bool
  | [], _ => true
  | _ :: _, [] => false
  | a :: as, b :: bs => if a = b then componentsLe as bs else a.before b

/-- Whether a path does not come after another. -/
def pathLe (p q : String) : Bool := componentsLe (components p) (components q)

/-- Whether two paths have the same components. -/
def samePath (p q : String) : Bool := components p == components q

/-- The last component of a path, if it is a name. -/
def fileName? (path : String) : Option (List Char) :=
  match (components path).getLast? with
  | some (.name text) => some text
  | _ => none

/-- What stands before and after the last dot of a name; a dot at its beginning does not count. -/
def splitName (name : List Char) : List Char × Option (List Char) :=
  let after := (name.reverse.takeWhile (· != '.')).reverse
  match (name.reverse.dropWhile (· != '.')).reverse with
  | [] => (name, none)
  | stem => if stem.length ≤ 1 then (name, none) else (stem.dropLast, some after)

/-- The name of the file of a path without its extension. -/
def fileStem? (path : String) : Option String :=
  (fileName? path).map fun name => String.ofList (splitName name).1

/-- The extension of the file of a path. -/
def extension? (path : String) : Option String :=
  (fileName? path).bind fun name => (splitName name).2.map String.ofList

/-- The path of an entry of a directory. -/
def pathIn (directory name : String) : String :=
  if directory == "" || directory.toList.getLast? == some '/' then directory ++ name
  else directory ++ "/" ++ name

example : components "./a//b/./c" =
    [.current, .name ['a'], .name ['b'], .name ['c']] := by decide
example : (fileStem? "src/buf.tar.rs", extension? "src/buf.tar.rs") =
    (some "buf.tar", some "rs") := by decide
example : fileStem? ".rs" = some ".rs" := by decide
example : fileStem? "a/.." = none := by decide

end ProofHarness.Disk
