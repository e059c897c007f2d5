import ProofHarness.Config
import ProofHarness.Target

/-!
# Verifier commands

The commands that run the verifier on a harness, one for each name to try, and the command that
runs a generated test.
-/

set_option autoImplicit false

namespace ProofHarness

/-- What the verifier is to do with a harness. -/
inductive Action where
  | verify
  /-- Generate a test from a counterexample. -/
  | playback
  deriving DecidableEq, Repr

/-- A program with its arguments. -/
structure Command where
  program : String
  arguments : List String
  deriving DecidableEq, Repr

namespace Command

/-- The arguments that choose the package, after the given flag. -/
def packageArguments (config : Config) (flag : String) : List String :=
  match config.package with
  | some package => [flag, package]
  | none => []

/-- The arguments that allow an unstable feature. -/
def unstable (feature : String) : List String := ["-Z", feature]

/-- The arguments for a harness that is a test. -/
def testArguments (flags : Flags) : List String := if flags.isTest then ["--tests"] else []

/-- The arguments for a harness with stubs. -/
def stubArguments (flags : Flags) : List String :=
  if flags.hasStub then unstable "stubbing" else []

/-- The command that verifies a harness. -/
def verify (config : Config) (name : String) (flags : Flags) : Command :=
  ⟨config.program, packageArguments config "-p" ++ ["--harness", name] ++ testArguments flags ++
    stubArguments flags ++ config.extra⟩

/-- The command that generates a test for a harness. -/
def playback (config : Config) (name : String) (flags : Flags) : Command :=
  ⟨config.program, testArguments flags ++ ["--harness", name] ++ packageArguments config "-p" ++
    unstable "concrete-playback" ++ ["--concrete-playback=inplace"] ++ stubArguments flags ++
    config.extra⟩

/-- The command that runs a generated test. -/
def playbackTest (config : Config) (test : String) : Command :=
  ⟨config.program, ["playback"] ++ packageArguments config "--package" ++
    unstable "concrete-playback" ++ ["--", test, "--nocapture"]⟩

/-- The command for an action. -/
def forAction (config : Config) (name : String) (flags : Flags) : Action → Command
  | .verify => verify config name flags
  | .playback => playback config name flags

/-- The commands for a target, one for each name to try. -/
def forTarget (config : Config) (target : Target) (flags : Flags) (action : Action) :
    List Command :=
  target.attempts.map fun name => forAction config name flags action

/-- The commands for a harness of a file. -/
def forHarness (config : Config) (h : Harness) (file : String) (action : Action) : List Command :=
  forTarget config (.ofHarness h file) h.flags action

/-- The command on one line. -/
def line (c : Command) : String := Text.joined " " (c.program :: c.arguments)

end Command

end ProofHarness
