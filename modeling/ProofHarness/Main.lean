import ProofHarness.CommandLine.Run

/-!
# The program

Reads the command line, takes a snapshot of the files that the request is about, and prints the
answer.
-/

set_option autoImplicit false

namespace ProofHarness.Main

open CommandLine

/-- The tree of files below a directory.  What is never read is left out: directories that are not
entered, and what is in files that are no sources. -/
partial def snapshot (directory : String) : IO Disk.Entry := do
  let mut entries : List (String × Disk.Entry) := []
  for e in ← (System.mkFilePath [directory]).readDir do
    let path := Disk.pathIn directory e.fileName
    if ← e.path.isDir then
      if Discovery.skippedNames.contains e.fileName then continue
      entries := (e.fileName, ← snapshot path) :: entries
    else if Discovery.isSource path then
      entries := (e.fileName, .file (← IO.FS.readBinFile e.path)) :: entries
  return .directory entries

/-- The paths of which a path is an extension. -/
def shorterPaths (path : String) : List String :=
  let s := path.toList
  ((List.range s.length).filter fun i => s[i]? == some '/').map fun i => String.ofList (s.take i)

/-- The tree of files at a path, mounted there.  Where the path leads through a file, that file is
mounted, so that following the path fails in the right way. -/
def mount (path : String) : IO (List (String × Disk.Entry)) := do
  let place := System.mkFilePath [path]
  if ← place.isDir then return [(path, ← snapshot path)]
  if ← place.pathExists then return [(path, .file (← IO.FS.readBinFile place))]
  for shorter in shorterPaths path do
    let place := System.mkFilePath [shorter]
    if (← place.pathExists) && !(← place.isDir) then return [(shorter, .file .empty)]
  return []

/-- The snapshot of what is at some paths; a longer path is looked up before a shorter one. -/
def diskOf (paths : List String) : IO Disk := do
  let mounts ← paths.mapM mount
  return ⟨mounts.flatten.mergeSort fun a b => b.1.length ≤ a.1.length⟩

/-- The answer to a request. -/
def answer (request : CommandLine.Request) : IO Outcome := do
  let here := (← IO.currentDir).toString
  let disk ← diskOf (request.paths here)
  if request.readsInput then
    match String.fromUTF8? (← (← IO.getStdin).readBinToEnd) with
    | some stdin => return request.run Syntax.Node.ofSource disk here stdin
    | none =>
      return .failure ("failed to read verifier output from stdin: " ++
        Disk.FileError.notUnicode.message)
  else
    return request.run Syntax.Node.ofSource disk here ""

end ProofHarness.Main

/-- Runs the program on the words after its name. -/
def main (words : List String) : IO UInt32 := do
  let outcome ←
    match ProofHarness.CommandLine.Request.ofWords words with
    | .ok request => ProofHarness.Main.answer request
    | .error stop => pure stop.outcome
  IO.print outcome.stdout
  IO.eprint outcome.stderr
  return outcome.exit.toUInt32
