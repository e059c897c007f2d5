import ProofHarness.Disk.Basic
import ProofHarness.Listing

/-!
# Finding sources

The source files below some roots, each once and in the order of their paths, and their scans.
Directories in which builds and tools keep their own files are not entered, unless they are roots.
-/

set_option autoImplicit false

namespace ProofHarness

open Disk Syntax

namespace Discovery

/-- The directories that are not entered. -/
def skippedNames : List String := ["target", ".git", ".cargo"]

/-- Whether a path is that of a source file. -/
def isSource (path : String) : Bool := extension? path == some "rs"

mutual

/-- The paths of the source files in an entry. -/
def sourcesIn (path : String) : Entry → List String
  | .file _ => if isSource path then [path] else []
  | .directory entries => sourcesAmong path entries

/-- The paths of the source files in the entries of a directory. -/
def sourcesAmong (directory : String) : List (String × Entry) → List String
  | [] => []
  | (name, entry) :: rest =>
    (match entry with
      | .directory inner =>
        if skippedNames.contains name then []
        else sourcesAmong (pathIn directory name) inner
      | .file bytes => sourcesIn (pathIn directory name) (.file bytes)) ++
      sourcesAmong directory rest

end

/-- The paths of the source files below a root; a root that is not there has none. -/
def sourcesBelow (disk : Disk) (root : String) : List String :=
  match disk.lookup root with
  | .ok entry => sourcesIn root entry
  | .error _ => []

/-- Leaves out each path that is the same as the one before it, which is `last` at first. -/
def dropAfter (last : String) : List String → List String
  | [] => []
  | p :: ps => if samePath last p then dropAfter last ps else p :: dropAfter p ps

/-- Leaves out each path that is the same as the one before it. -/
def dropRepeated : List String → List String
  | [] => []
  | p :: ps => p :: dropAfter p ps

/-- The paths of the source files below some roots. -/
def sources (disk : Disk) (roots : List String) : List String :=
  dropRepeated ((roots.flatMap (sourcesBelow disk)).mergeSort pathLe)

end Discovery

/-- A file that could not be read. -/
structure ReadFailure where
  path : String
  error : FileError
  deriving DecidableEq, Repr

/-- What is said of a file that could not be read. -/
def ReadFailure.message (f : ReadFailure) : String :=
  "failed to read " ++ f.path ++ ": " ++ f.error.message

/-- The scan of the file at a path. -/
def scanFileWith (parse : String → Node) (disk : Disk) (strategy : ModulePaths) (path : String) :
    Except ReadFailure Scan :=
  match disk.read path with
  | .ok text => .ok (.ofFileWith parse path text strategy)
  | .error e => .error ⟨path, e⟩

/-- The scan of the file at a path. -/
def scanFile : Disk → ModulePaths → String → Except ReadFailure Scan :=
  scanFileWith Node.ofSource

/-- The scans of the source files below some roots, and the files that could not be read. -/
structure Discovery where
  scans : List Scan
  failures : List ReadFailure
  deriving DecidableEq, Repr

namespace Discovery

/-- The scan that a file contributes: one that has something to report. -/
def scanOf? : Except ReadFailure Scan → Option Scan
  | .ok s => if s.isEmpty then none else some s
  | .error _ => none

/-- The failure that a file contributes. -/
def failureOf? : Except ReadFailure Scan → Option ReadFailure
  | .ok _ => none
  | .error f => some f

/-- Scans the source files below some roots. -/
def ofRootsWith (parse : String → Node) (disk : Disk) (roots : List String)
    (strategy : ModulePaths) : Discovery :=
  let results := (sources disk roots).map (scanFileWith parse disk strategy)
  ⟨results.filterMap scanOf?, results.filterMap failureOf?⟩

/-- Scans the source files below some roots. -/
def ofRoots : Disk → List String → ModulePaths → Discovery := ofRootsWith Node.ofSource

/-- The listing of what matches a pattern. -/
def listing (d : Discovery) (pattern : Option String) : Listing :=
  ⟨filterScans pattern d.scans, d.failures.map ReadFailure.message⟩

end Discovery

end ProofHarness
