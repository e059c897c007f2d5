import ProofHarness.Command
import ProofHarness.CommandLine.Options
import ProofHarness.Text.Fold

/-!
# Requests

What can be asked for on the command line, and the reading of it.
-/

set_option autoImplicit false

namespace ProofHarness.CommandLine

/-- The form of an answer. -/
inductive Format where
  | human
  | json
  | markdown
  deriving DecidableEq, Repr

namespace Format

/-- The word for a form. -/
def name : Format → String
  | .human => "human"
  | .json => "json"
  | .markdown => "markdown"

/-- The form that a word in any case stands for. -/
def ofString? (text : String) : Option Format :=
  [Format.human, .json, .markdown].find? fun f => Text.isWordInAnyCase f.name text

end Format

/-- What is said about the configuration on the command line. -/
structure Overrides where
  /-- The path of a configuration file. -/
  file : Option String
  package : Option String
  program : Option String
  deriving DecidableEq, Repr

/-- What is asked for. -/
inductive Request where
  /-- The harnesses below some roots. -/
  | list (roots : List String) (pattern : Option String) (strategy : ModulePaths)
      (format : Format)
  /-- The commands for a harness of a file. -/
  | command (file harness : String) (overrides : Overrides) (strategy : ModulePaths)
      (action : Action) (format : Format)
  /-- The command for a generated test. -/
  | playback (test : String) (overrides : Overrides) (format : Format)
  /-- The summary of a report that is read from a file, or from standard input. -/
  | report (file stderr : Option String) (format : Format)
  deriving DecidableEq, Repr

namespace Request

/-- The paths of the files and directories that a request is about; `here` is the path of the
present directory. -/
def paths (here : String) : Request → List String
  | .list roots _ _ _ => if roots.isEmpty then [here] else roots
  | .command file _ overrides _ _ _ => overrides.file.toList ++ [file]
  | .playback _ overrides _ => overrides.file.toList
  | .report file stderr _ => file.toList ++ stderr.toList

/-- Whether a request is about what stands on standard input. -/
def readsInput : Request → Bool
  | .report none _ _ => true
  | _ => false

end Request

/-- Any text will do. -/
def anyText (_ : String) : Bool := true

/-- A path must not be empty. -/
def isPath (text : String) : Bool := text != ""

/-- More is told on the way. -/
def verboseSwitch : Switch := ⟨"verbose", some 'v', false, true, anyText⟩

/-- The form of the answer. -/
def formatSwitch : Switch := ⟨"format", none, true, false, fun v => (Format.ofString? v).isSome⟩

/-- How module paths are found. -/
def strategySwitch : Switch :=
  ⟨"module-paths", none, true, false, fun v => (ModulePaths.ofString? v).isSome⟩

/-- The names of the harnesses that are listed. -/
def nameSwitch : Switch := ⟨"name", none, true, false, anyText⟩

/-- A test is generated from the counterexample. -/
def playbackSwitch : Switch := ⟨"playback", none, false, false, anyText⟩

/-- The file that holds what the verifier wrote to its second output. -/
def stderrSwitch : Switch := ⟨"stderr", none, true, false, isPath⟩

/-- The options that override the configuration. -/
def overrideSwitches : List Switch :=
  [⟨"package", some 'p', true, false, anyText⟩, ⟨"config", none, true, false, isPath⟩,
    ⟨"cargo-kani", none, true, false, isPath⟩]

/-- The form that is asked for. -/
def formatOf (items : List Item) : Format :=
  ((valueOf? "format" items).bind Format.ofString?).getD .human

/-- The strategy that is asked for. -/
def strategyOf (items : List Item) : ModulePaths :=
  ((valueOf? "module-paths" items).bind ModulePaths.ofString?).getD .reverseIndex

/-- What overrides the configuration. -/
def overridesOf (items : List Item) : Overrides :=
  ⟨valueOf? "config" items, valueOf? "package" items, valueOf? "cargo-kani" items⟩

/-- Reads a request for a listing. -/
def listRequest (words : List String) : Except Stop Request :=
  (items [verboseSwitch, nameSwitch, strategySwitch, formatSwitch] (fun _ => isPath) words).map
    fun items => .list (wordsOf items) (valueOf? "name" items) (strategyOf items) (formatOf items)

/-- Reads a request for the commands of a harness. -/
def commandRequest (words : List String) : Except Stop Request :=
  let accepts (count : Nat) (word : String) : Bool := (count == 0 && isPath word) || count == 1
  let switches :=
    [verboseSwitch, strategySwitch, playbackSwitch, formatSwitch] ++ overrideSwitches
  (items switches accepts words).bind fun items =>
    match wordsOf items with
    | [file, harness] =>
      .ok (.command file harness (overridesOf items) (strategyOf items)
        (if hasFlag "playback" items then .playback else .verify) (formatOf items))
    | _ => .error .misuse

/-- Reads a request for the command of a generated test. -/
def playbackRequest (words : List String) : Except Stop Request :=
  (items ([verboseSwitch, formatSwitch] ++ overrideSwitches) (fun count _ => count == 0)
    words).bind fun items =>
      match wordsOf items with
      | [test] => .ok (.playback test (overridesOf items) (formatOf items))
      | _ => .error .misuse

/-- Reads a request for the summary of a report. -/
def reportRequest (words : List String) : Except Stop Request :=
  (items [verboseSwitch, stderrSwitch, formatSwitch]
    (fun count word => count == 0 && isPath word) words).map fun items =>
      .report (wordsOf items).head? (valueOf? "stderr" items) (formatOf items)

/-- The words that start a request. -/
def requestWords : List String := ["list", "command", "playback", "report", "help"]

/-- Help on at most one request. -/
def helpRequest : List String → Stop
  | [] => .help
  | [w] => if requestWords.contains w then .help else .misuse
  | _ => .misuse

/-- Reads a request from its first word and the words after it. -/
def requestFrom (word : String) (words : List String) : Except Stop Request :=
  if word == "list" then listRequest words
  else if word == "command" then commandRequest words
  else if word == "playback" then playbackRequest words
  else if word == "report" then reportRequest words
  else if word == "help" then .error (helpRequest words)
  else .error .misuse

/-- Reads a request after any options in front of its first word. -/
def requestAfterOptions : List String → Except Stop Request
  | [] => .error .misuse
  | w :: ws =>
    if isOption w then
      match items [verboseSwitch] (fun _ _ => false) [w] with
      | .error stop => .error stop
      | .ok _ => if w == "--" then .error .misuse else requestAfterOptions ws
    else requestFrom w ws

/-- The word that stands first when the program is run as a subcommand of another one. -/
def ownName : String := "kani-harnesses"

/-- Reads a request from the words of a command line. -/
def Request.ofWords (words : List String) : Except Stop Request :=
  requestAfterOptions (if words.head? == some ownName then words.drop 1 else words)

end ProofHarness.CommandLine
