import ProofHarness.Disk.Path

/-!
# Files and directories

A snapshot of the part of a disk that is looked at: trees of directories and files, each mounted at
a path.  A path is followed piece by piece, so that it fails at the first piece that cannot be
followed.
-/

set_option autoImplicit false

namespace ProofHarness

namespace Disk

/-- A file with its bytes, or a directory with its entries. -/
inductive Entry where
  | file (bytes : ByteArray)
  | directory (entries : List (String × Entry))

instance : Inhabited Entry := ⟨.directory []⟩

/-- Why a file cannot be read. -/
inductive FileError where
  | missing
  | notDirectory
  | isDirectory
  | nameTooLong
  | invalidName
  | notUnicode
  | other (message : String)
  deriving DecidableEq, Repr

/-- The wording of an error. -/
def FileError.message : FileError → String
  | .missing => "No such file or directory (os error 2)"
  | .notDirectory => "Not a directory (os error 20)"
  | .isDirectory => "Is a directory (os error 21)"
  | .nameTooLong => "File name too long (os error 36)"
  | .invalidName => "file name contained an unexpected NUL byte"
  | .notUnicode => "stream did not contain valid UTF-8"
  | .other message => message

end Disk

/-- Trees of files, each with the path at which it is mounted; relative paths start at the tree
with an empty path. -/
structure Disk where
  mounts : List (String × Disk.Entry)

namespace Disk

open Text

/-- Follows one piece of a path.  `above` are the entries on the way, the last one first. -/
def follow (above : List Entry) (piece : List Char) : Except FileError (List Entry) :=
  match above with
  | .directory entries :: outer =>
    if piece == [] || piece == ['.'] then .ok above
    else if piece == ['.', '.'] then if outer.isEmpty then .error .missing else .ok outer
    else if 255 < (String.ofList piece).utf8ByteSize then .error .nameTooLong
    else
      match entries.find? fun e => e.1.toList == piece with
      | some (_, entry) => .ok (entry :: above)
      | none => .error .missing
  | .file _ :: _ => .error .notDirectory
  | [] => .error .missing

/-- The pieces of a path below a mount, if the path lies there. -/
def piecesBelow? (mount path : String) : Option (List (List Char)) :=
  if mount == "" then
    if path.toList.head? == some '/' then none else some (splitOn ['/'] path.toList)
  else if mount == path then some []
  else (stripPrefix (mount ++ "/").toList path.toList).map fun rest => splitOn ['/'] rest

/-- The entry at a path. -/
def lookup (disk : Disk) (path : String) : Except FileError Entry :=
  if path.toList.contains '\x00' then .error .invalidName
  else if path == "" then .error .missing
  else if 4096 ≤ path.utf8ByteSize then .error .nameTooLong
  else
    match disk.mounts.findSome? fun m =>
      (piecesBelow? m.1 path).map fun pieces => (m.2, pieces) with
    | none => .error .missing
    | some (entry, pieces) =>
      (pieces.foldlM follow [entry]).bind fun above =>
        match above with
        | found :: _ => .ok found
        | [] => .error .missing

/-- The text of the file at a path. -/
def read (disk : Disk) (path : String) : Except FileError String :=
  (disk.lookup path).bind fun entry =>
    match entry with
    | .directory _ => .error .isDirectory
    | .file bytes =>
      match String.fromUTF8? bytes with
      | some text => .ok text
      | none => .error .notUnicode

end Disk

end ProofHarness
