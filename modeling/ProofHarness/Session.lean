import ProofHarness.Command
import ProofHarness.Scan

/-!
# Sessions

A text that is edited while harness records of it are kept, and the steps by which both change.  A
step is asked for by a `Request`, which may turn out to name no step; the session then stays as it
is.
-/

set_option autoImplicit false

namespace ProofHarness

open Syntax

/-- A text and harness records. -/
structure Session where
  text : String
  records : List Harness
  deriving DecidableEq, Repr

/-- A step of a session. -/
inductive Step where
  | setText (text : String)
  /-- Puts a text in the place of each occurrence of another one. -/
  | replace (old new : String)
  /-- Adds a record. -/
  | push (record : Harness)
  /-- Takes the records from the text, as they are found. -/
  | extract
  /-- Gives the records the module paths that the text gives them. -/
  | attach (strategy : ModulePaths)
  /-- Keeps the records that fit the text. -/
  | normalize
  /-- Asks whether the records fit the text. -/
  | validate
  /-- Takes the records from a scan of the text. -/
  | scan (strategy : ModulePaths)
  /-- Asks for the commands of the records. -/
  | commands (file : String) (config : Config) (action : Action)
  deriving DecidableEq, Repr

/-- What a step tells, besides the records after it. -/
inductive StepResult where
  | nothing
  | desyncs (ds : List Desync)
  /-- For each record the difference between it and the text, if there is one. -/
  | checks (found : List (Option Desync))
  | commands (of : List (List Command))
  deriving DecidableEq, Repr

/-- A step as it is asked for: strategies are words that may be left out, and there may be no such
step. -/
inductive Request where
  | setText (text : String)
  | replace (old new : String)
  | push (record : Harness)
  | extract
  | attach (strategy : Option String)
  | normalize
  | validate
  | scan (strategy : Option String)
  | commands (file : String) (config : Config) (action : Action)
  /-- A request by a name that no step has. -/
  | other (name : String)
  deriving DecidableEq, Repr

/-- Why a request asks for no step. -/
inductive RequestError where
  | unknownStrategy (word : String)
  | unknownStep (name : String)
  deriving DecidableEq, Repr

/-- What is said of such a request. -/
def RequestError.message : RequestError → String
  | .unknownStrategy word => ModulePaths.unknownMessage word
  | .unknownStep name => name

namespace Request

/-- The strategy that a word stands for, or the one that is taken without a word. -/
def strategy : Option String → Except RequestError ModulePaths
  | none => .ok .reverseIndex
  | some word =>
    match ModulePaths.ofString? word with
    | some strategy => .ok strategy
    | none => .error (.unknownStrategy word)

/-- The step that is asked for. -/
def step : Request → Except RequestError Step
  | .setText text => .ok (.setText text)
  | .replace old new => .ok (.replace old new)
  | .push record => .ok (.push record)
  | .extract => .ok .extract
  | .attach word => (strategy word).map .attach
  | .normalize => .ok .normalize
  | .validate => .ok .validate
  | .scan word => (strategy word).map .scan
  | .commands file config action => .ok (.commands file config action)
  | .other name => .error (.unknownStep name)

end Request

namespace Session

/-- A session before any step. -/
def start : Session := ⟨"", []⟩

/-- The session after a step, and what the step tells. -/
def step (parse : String → Node) (s : Session) : Step → Session × StepResult
  | .setText text => ({ s with text }, .nothing)
  | .replace old new =>
    ({ s with text := String.ofList (Text.replaceAll old.toList new.toList s.text.toList) },
      .nothing)
  | .push record => ({ s with records := s.records ++ [record] }, .nothing)
  | .extract => ({ s with records := Harness.ofTree (parse s.text) }, .nothing)
  | .attach strategy =>
    ({ s with records := attachModules (parse s.text) strategy s.records }, .nothing)
  | .normalize =>
    let normal := ProofHarness.normalize s.text s.records
    ({ s with records := normal.harnesses }, .desyncs normal.desyncs)
  | .validate => (s, .checks (s.records.map (Harness.desync? (Text.trimmedLines s.text))))
  | .scan strategy =>
    let scan := Scan.ofSourceWith parse s.text strategy
    ({ s with records := scan.harnesses }, .desyncs scan.desyncs)
  | .commands file config action =>
    (s, .commands (s.records.map fun h => Command.forHarness config h file action))

/-- The session after a request, and the answer to it. -/
def answer (parse : String → Node) (s : Session) (r : Request) :
    Session × Except RequestError StepResult :=
  match r.step with
  | .ok step => ((s.step parse step).1, .ok (s.step parse step).2)
  | .error e => (s, .error e)

/-- The answers to some requests, each with the session after it. -/
def answersWith (parse : String → Node) :
    Session → List Request → List (Session × Except RequestError StepResult)
  | _, [] => []
  | s, r :: rs => s.answer parse r :: answersWith parse (s.answer parse r).1 rs

/-- The answers to some requests, each with the session after it. -/
def answers : Session → List Request → List (Session × Except RequestError StepResult) :=
  answersWith Node.ofSource

/-- The session after some requests. -/
def run (parse : String → Node) (s : Session) (rs : List Request) : Session :=
  rs.foldl (fun s r => (s.answer parse r).1) s

end Session

end ProofHarness
