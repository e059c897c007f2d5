import ProofHarness.CommandLine.Request
import ProofHarness.ConfigFile
import ProofHarness.Discovery
import ProofHarness.Report.Output
import ProofHarness.Report.Summary

/-!
# Answering requests

What is printed for a request, and the exit status: 0 if all is well, 1 if the answer reports a
problem or has no such form, 2 if there is no answer.
-/

set_option autoImplicit false

namespace ProofHarness.CommandLine

open Json (Value)
open Syntax (Node)

/-- What is printed, and the exit status. -/
structure Outcome where
  exit : Nat
  stdout : String
  stderr : String
  deriving DecidableEq, Repr

namespace Outcome

/-- An answer. -/
def answer (exit : Nat) (text : String) : Outcome := ⟨exit, text, ""⟩

/-- No answer, and the reason. -/
def failure (reason : String) : Outcome := ⟨2, "", "Error: " ++ reason ++ "\n"⟩

/-- There is no table of the given things. -/
def noTable (things : String) : Outcome :=
  ⟨1, "", "Markdown format not supported for " ++ things ++ "\n"⟩

end Outcome

/-- Commands for people, a line each. -/
def commandsText (commands : List Command) : String :=
  String.join (commands.map fun c => c.line ++ "\n")

/-- Commands as JSON. -/
def commandsJson (commands : List Command) : String :=
  Value.pretty (.list (commands.map fun c =>
    .object [("program", .string c.program), ("args", .strings c.arguments)]))

/-- The answer that consists of commands. -/
def commandsOutcome (commands : List Command) : Format → Outcome
  | .human => .answer 0 (commandsText commands)
  | .json => .answer 0 (commandsJson commands)
  | .markdown => .noTable "commands"

/-- The configuration with what overrides it. -/
def Overrides.config (disk : Disk) (o : Overrides) : Except ConfigError Config :=
  let base :=
    match o.file with
    | some path => Config.ofFile disk path
    | none => .ok .default
  base.map fun config =>
    { config with
      package := o.package.or config.package
      program := o.program.getD config.program }

/-- The reason that a configuration cannot be used, with what lies behind it. -/
def configFailure (e : ConfigError) : Outcome := .failure (e.message ++ ": " ++ e.reason)

/-- The reason that a source file cannot be read, with what lies behind it. -/
def readFailure (f : ReadFailure) : Outcome := .failure (f.message ++ ": " ++ f.error.message)

/-- The answer to a request for a listing. -/
def listOutcome (parse : String → Node) (disk : Disk) (roots : List String)
    (pattern : Option String) (strategy : ModulePaths) (format : Format) : Outcome :=
  let listing := (Discovery.ofRootsWith parse disk roots strategy).listing pattern
  .answer (if listing.hasDesyncs then 1 else 0)
    (match format with
      | .human => listing.human
      | .json => listing.json
      | .markdown => listing.markdown)

/-- The answer to a request for the commands of a harness. -/
def commandOutcome (parse : String → Node) (disk : Disk) (file harness : String)
    (overrides : Overrides) (strategy : ModulePaths) (action : Action) (format : Format) :
    Outcome :=
  match overrides.config disk with
  | .error e => configFailure e
  | .ok config =>
    match scanFileWith parse disk strategy file with
    | .error f => readFailure f
    | .ok scan =>
      match scan.harnesses.filter fun h => h.name == harness with
      | [] =>
        if scan.desyncs.any fun d => d.harness == harness then
          .failure ("harness '" ++ harness ++ "' in " ++ file ++ " is desynced")
        else .failure ("no harness named '" ++ harness ++ "' in " ++ file)
      | h :: hs =>
        commandsOutcome ((h :: hs).flatMap fun h => Command.forHarness config h file action) format

/-- The answer to a request for the command of a generated test. -/
def playbackOutcome (disk : Disk) (test : String) (overrides : Overrides) (format : Format) :
    Outcome :=
  match overrides.config disk with
  | .error e => configFailure e
  | .ok config => commandsOutcome [Command.playbackTest config test] format

/-- The text of a file that is part of a report, or of `missing` if no file is named. -/
def reportText (disk : Disk) (missing : String) : Option String → Except ReadFailure String
  | none => .ok missing
  | some path =>
    match disk.read path with
    | .ok text => .ok text
    | .error e => .error ⟨path, e⟩

/-- The answer to a request for the summary of a report. -/
def reportOutcome (disk : Disk) (stdin : String) (file stderr : Option String) (format : Format) :
    Outcome :=
  match reportText disk stdin file with
  | .error f => .failure f.message
  | .ok stdoutText =>
    match reportText disk "" stderr with
    | .error f => .failure f.message
    | .ok stderrText =>
      let report := Report.ofOutput stdoutText
      let error := RunError.ofOutput? stdoutText stderrText
      let exit := if report.succeeds error then 0 else 1
      match format with
      | .human => .answer exit (report.human error)
      | .json => .answer exit (report.json error)
      | .markdown => .noTable "reports"

/-- The answer to a request; `here` is the path of the present directory. -/
def Request.run (parse : String → Node) (disk : Disk) (here stdin : String) : Request → Outcome
  | .list roots pattern strategy format =>
    listOutcome parse disk (if roots.isEmpty then [here] else roots) pattern strategy format
  | .command file harness overrides strategy action format =>
    commandOutcome parse disk file harness overrides strategy action format
  | .playback test overrides format => playbackOutcome disk test overrides format
  | .report file stderr format => reportOutcome disk stdin file stderr format

/-- The answer to words that make no request. -/
def Stop.outcome : Stop → Outcome
  | .help => .answer 0 ""
  | .misuse => .answer 2 ""

/-- The answer to a command line. -/
def runWith (parse : String → Node) (disk : Disk) (here stdin : String) (words : List String) :
    Outcome :=
  match Request.ofWords words with
  | .ok request => request.run parse disk here stdin
  | .error stop => stop.outcome

/-- The answer to a command line. -/
def run : Disk → String → String → List String → Outcome := runWith Node.ofSource

end ProofHarness.CommandLine
