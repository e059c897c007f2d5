import ProofHarness.CommandLine.Run
import ProofHarness.Proofs.Json.Denotation
import ProofHarness.Proofs.Scan.RowOrder
import ProofHarness.Proofs.Text.Join

/-!
# Requests for the commands of a harness

The request is answered exactly if the configuration loads, the file can be read and a harness of
the name is found in its text (`run_command_exact`).  The answer has the commands of all harnesses
of the name, in the order of their rows: a line for each command with the program and the arguments,
or a JSON text that denotes the list of them (`Printed`).  In the other cases there is no answer,
for one of three reasons; that a harness does not fit its text is not among them, for nothing has
changed the text since it was scanned (`keepsAll_ofTree`).  All this holds for every parser that
finds the names of functions where they stand (`Faithful`).
-/

set_option autoImplicit false

namespace ProofHarness.CommandLine

open Syntax

variable {parse : String → Node} {disk : Disk} {file name text : String} {o : Overrides}
  {config : Config} {strategy : ModulePaths} {action : Action} {format : Format}

/-! ## The configuration -/

/-- The configuration before anything overrides it: that of the named file, or the default one. -/
inductive IsBase (disk : Disk) : Option String → Config → Prop where
  | default : IsBase disk none .default
  | file {path text : String} {config : Config} :
    disk.read path = .ok text → Config.ofJson text = .ok config → IsBase disk (some path) config

/-- The configuration in which each field that is given on the command line is replaced. -/
def Overrides.over (o : Overrides) (base : Config) : Config :=
  ⟨o.program.getD base.program, o.package.or base.package, base.extra⟩

/-- A configuration file loads exactly if it can be read and its text is a configuration. -/
theorem ofFile_eq_ok_iff {path : String} :
    Config.ofFile disk path = .ok config ↔
      ∃ text, disk.read path = .ok text ∧ Config.ofJson text = .ok config := by
  rw [Config.ofFile]
  cases hread : disk.read path with
  | error e => simp
  | ok text => cases hjson : Config.ofJson text <;> simp [hjson]

/-- The configuration loads exactly if what it starts from does. -/
theorem config_eq_ok_iff :
    o.config disk = .ok config ↔ ∃ base, IsBase disk o.file base ∧ config = o.over base := by
  obtain ⟨path?, package, program⟩ := o
  cases path? with
  | none =>
    constructor
    · intro h
      exact ⟨.default, .default, (Except.ok.inj h).symm⟩
    · rintro ⟨base, ⟨⟩, rfl⟩
      rfl
  | some path =>
    constructor
    · intro h
      cases hfile : Config.ofFile disk path with
      | error e => simp [Overrides.config, hfile, Except.map] at h
      | ok base =>
        obtain ⟨text, hread, hjson⟩ := ofFile_eq_ok_iff.1 hfile
        simp only [Overrides.config, hfile, Except.map, Except.ok.injEq] at h
        exact ⟨base, .file hread hjson, h.symm⟩
    · rintro ⟨base, hbase, rfl⟩
      cases hbase with
      | file hread hjson =>
        have hfile : Config.ofFile disk path = .ok base := ofFile_eq_ok_iff.2 ⟨_, hread, hjson⟩
        simp only [Overrides.config, hfile, Except.map, Overrides.over]

/-! ## The harnesses of a name -/

/-- The harnesses of a name in a text with their modules, in the order in which they are found. -/
def named (parse : String → Node) (text name : String) (strategy : ModulePaths) : List Harness :=
  (Harness.found (parse text) strategy).filter fun h => h.name == name

/-- Modules change neither the names nor which harnesses there are. -/
theorem named_ne_nil_iff :
    named parse text name strategy ≠ [] ↔ ∃ h ∈ Harness.ofTree (parse text), h.name = name := by
  rw [named, Harness.found, attachModules_eq_map, ne_eq, List.filter_eq_nil_iff,
    List.forall_mem_map]
  simp only [Harness.withModule, beq_iff_eq, not_forall, not_not, exists_prop]

/-- The harnesses that are looked at for commands are those of the name, in order. -/
theorem exists_inRowOrder_named (hparse : Faithful parse) (path text name : String)
    (strategy : ModulePaths) :
    ∃ ordered, Harness.InRowOrder (named parse text name strategy) ordered ∧
      ((Scan.ofFileWith parse path text strategy).harnesses.filter fun h => h.name == name) =
        ordered.map Harness.withArguments := by
  refine ⟨_, (Harness.inRowOrder_mergeSort _).filter _, ?_⟩
  rw [Scan.ofFileWith, Scan.ofSourceWith, Scan.harnesses_ofTree (hparse text) strategy,
    List.filter_map]
  rfl

/-! ## The outcomes -/

/-- The way through to an answer. -/
theorem commandOutcome_of_found (hparse : Faithful parse) {base : Config}
    (hbase : IsBase disk o.file base) (hread : disk.read file = .ok text)
    (hname : ∃ h ∈ Harness.ofTree (parse text), h.name = name) :
    ∃ ordered, Harness.InRowOrder (named parse text name strategy) ordered ∧
      commandOutcome parse disk file name o strategy action format =
        commandsOutcome
          (ordered.flatMap fun h => Command.forHarness (o.over base) h file action) format := by
  have hconfig : o.config disk = .ok (o.over base) := config_eq_ok_iff.2 ⟨base, hbase, rfl⟩
  obtain ⟨ordered, hordered, hfilter⟩ := exists_inRowOrder_named hparse file text name strategy
  refine ⟨ordered, hordered, ?_⟩
  cases ordered with
  | nil => exact absurd (hordered.eq_nil_iff.1 rfl) (named_ne_nil_iff.2 hname)
  | cons h hs =>
    rw [List.map_cons] at hfilter
    -- Commands are made of the name, the modules and the flags; arguments have no part in them.
    have hsame : ((h :: hs).map Harness.withArguments).flatMap
        (fun k => Command.forHarness (o.over base) k file action) =
          (h :: hs).flatMap fun k => Command.forHarness (o.over base) k file action := by
      rw [List.flatMap_map]
      rfl
    rw [List.map_cons] at hsame
    simp only [commandOutcome, hconfig, scanFileWith, hread, hfilter, hsame]

/-- No harness has the name.  A fresh scan has no harness that does not fit, so that the branch for
these is not taken. -/
theorem commandOutcome_of_unnamed (hparse : Faithful parse) (hconfig : o.config disk = .ok config)
    (hread : disk.read file = .ok text) (hnamed : named parse text name strategy = []) :
    commandOutcome parse disk file name o strategy action format =
      .failure ("no harness named '" ++ name ++ "' in " ++ file) := by
  obtain ⟨ordered, hordered, hfilter⟩ := exists_inRowOrder_named hparse file text name strategy
  rw [hordered.eq_nil_iff.2 hnamed, List.map_nil] at hfilter
  have hdesyncs : (Scan.ofFileWith parse file text strategy).desyncs = [] :=
    (keepsAll_ofTree (hparse text) strategy).desyncs
  simp [commandOutcome, hconfig, scanFileWith, hread, hfilter, hdesyncs]

/-- The file cannot be read. -/
theorem commandOutcome_of_unread {e : Disk.FileError} (hconfig : o.config disk = .ok config)
    (hread : disk.read file = .error e) :
    commandOutcome parse disk file name o strategy action format = readFailure ⟨file, e⟩ := by
  simp only [commandOutcome, hconfig, scanFileWith, hread]

/-- The configuration does not load. -/
theorem commandOutcome_of_unconfigured {e : ConfigError} (hconfig : o.config disk = .error e) :
    commandOutcome parse disk file name o strategy action format = configFailure e := by
  simp only [commandOutcome, hconfig]

/-! ## Answers and refusals -/

/-- There is no answer, and a harness that does not fit its text is not the reason. -/
structure Refused (outcome : Outcome) : Prop where
  exit : outcome.exit = 2
  stdout : outcome.stdout = ""
  reason : ∀ harness path,
    outcome ≠ .failure ("harness '" ++ harness ++ "' in " ++ path ++ " is desynced")

/-- A failure tells its reason. -/
theorem failure_inj {reason reason' : String} :
    Outcome.failure reason = .failure reason' ↔ reason = reason' := by
  simp [Outcome.failure, ← String.toList_inj]

/-- The first letter tells such a reason from the others. -/
theorem refused_failure {reason : String} (hreason : reason.toList.head? ≠ some 'h') :
    Refused (.failure reason) := by
  refine ⟨rfl, rfl, ?_⟩
  intro harness path heq
  rw [failure_inj.1 heq] at hreason
  simp at hreason

/-- The message about a configuration file that cannot be read. -/
theorem configMessage_read (path : String) (error : Disk.FileError) :
    (ConfigError.read path error).message =
      "failed to read config " ++ path ++ ": " ++ error.message := rfl

/-- The message about a text that is no configuration. -/
theorem configMessage_invalid (path reason : String) :
    (ConfigError.invalid path reason).message = "invalid config " ++ path ++ ": " ++ reason := rfl

/-- The message about a source file that cannot be read. -/
theorem readMessage (f : ReadFailure) :
    f.message = "failed to read " ++ f.path ++ ": " ++ f.error.message := rfl

/-- A configuration that does not load is a reason of another kind. -/
theorem refused_configFailure (e : ConfigError) : Refused (configFailure e) := by
  rw [configFailure]
  apply refused_failure
  cases e with
  | read path error =>
    rw [configMessage_read]
    simp
  | invalid path reason =>
    rw [configMessage_invalid]
    simp

/-- So is a file that cannot be read. -/
theorem refused_readFailure (f : ReadFailure) : Refused (readFailure f) := by
  rw [readFailure, readMessage]
  apply refused_failure
  simp

/-- A request is answered, for want of nothing, or it is refused. -/
theorem answered_or_refused (hparse : Faithful parse) (disk : Disk) (file name : String)
    (o : Overrides) (strategy : ModulePaths) (action : Action) (format : Format) :
    (∃ base text, IsBase disk o.file base ∧ disk.read file = .ok text ∧
        ∃ h ∈ Harness.ofTree (parse text), h.name = name) ∨
      Refused (commandOutcome parse disk file name o strategy action format) := by
  cases hconfig : o.config disk with
  | error e =>
    rw [commandOutcome_of_unconfigured hconfig]
    exact .inr (refused_configFailure e)
  | ok config =>
    cases hread : disk.read file with
    | error e =>
      rw [commandOutcome_of_unread hconfig hread]
      exact .inr (refused_readFailure ⟨file, e⟩)
    | ok text =>
      by_cases hnamed : named parse text name strategy = []
      · rw [commandOutcome_of_unnamed hparse hconfig hread hnamed]
        exact .inr (refused_failure (by simp))
      · obtain ⟨base, hbase, -⟩ := config_eq_ok_iff.1 hconfig
        exact .inl ⟨base, text, hbase, rfl, named_ne_nil_iff.1 hnamed⟩

/-! ## What is printed -/

/-- What an answer with commands says, in the order of the commands.  For people, each command is a
line with the program and the arguments, a space in front of each argument.  Otherwise the answer is
a JSON text that denotes the list of the programs with their arguments, and nothing else. -/
def Printed (commands : List Command) (stdout : String) : Format → Prop
  | .human =>
    stdout.toList = commands.flatMap fun c =>
      c.program.toList ++ (c.arguments.flatMap fun a => ' ' :: a.toList) ++ ['\n']
  | .json =>
    ∀ v, Json.Denotes stdout v ↔
      v = .list (commands.map fun c =>
        .object [("program", .string c.program), ("args", .list (c.arguments.map .string))])
  | .markdown => False

/-- The line of a command. -/
theorem toList_line (c : Command) :
    c.line.toList = c.program.toList ++ c.arguments.flatMap fun a => ' ' :: a.toList := by
  rw [Command.line, Text.joined, String.toList_ofList, List.map_cons,
    Text.join_cons_eq_append_flatMap, List.flatMap_map]
  rfl

/-- An answer with commands says what they are. -/
theorem printed_commandsOutcome (commands : List Command) (hformat : format ≠ .markdown) :
    (commandsOutcome commands format).exit = 0 ∧ (commandsOutcome commands format).stderr = "" ∧
      Printed commands (commandsOutcome commands format).stdout format := by
  cases format with
  | human =>
    refine ⟨rfl, rfl, ?_⟩
    show (commandsText commands).toList = _
    simp only [commandsText, String.toList_join, List.flatMap_map, String.toList_append,
      toList_line]
    rfl
  | json => exact ⟨rfl, rfl, fun v => Json.denotes_pretty_iff⟩
  | markdown => exact absurd rfl hformat

/-- A request for commands is answered exactly if the configuration loads, the file can be read and
a harness of the name is found in it.  The answer says the commands of each such harness, in the
order of the rows, under the configuration with what the command line says; any other request is
refused. -/
theorem run_command_exact (hparse : Faithful parse) (disk : Disk) (here stdin : String)
    {words : List String}
    (hwords : Request.ofWords words = .ok (.command file name o strategy action format))
    (hformat : format ≠ .markdown) :
    ((runWith parse disk here stdin words).exit = 0 ↔
        (∃ base, IsBase disk o.file base) ∧ ∃ text, disk.read file = .ok text ∧
          ∃ h ∈ Harness.ofTree (parse text), h.name = name) ∧
      (∀ base text, IsBase disk o.file base → disk.read file = .ok text →
        (∃ h ∈ Harness.ofTree (parse text), h.name = name) →
          (runWith parse disk here stdin words).stderr = "" ∧
          ∃ ordered, Harness.InRowOrder (named parse text name strategy) ordered ∧
            Printed (ordered.flatMap fun h => Command.forHarness (o.over base) h file action)
              (runWith parse disk here stdin words).stdout format) ∧
      ((runWith parse disk here stdin words).exit ≠ 0 →
        Refused (runWith parse disk here stdin words)) := by
  have hrun : runWith parse disk here stdin words =
      commandOutcome parse disk file name o strategy action format := by
    rw [runWith, hwords]
    rfl
  rw [hrun]
  -- An answer and a refusal differ in the exit code, so that this tells which one it is.
  refine ⟨?_, ?_, ?_⟩
  · constructor
    · intro hexit
      rcases answered_or_refused hparse disk file name o strategy action format with
        ⟨base, text, hbase, hread, hname⟩ | hrefused
      · exact ⟨⟨base, hbase⟩, text, hread, hname⟩
      · rw [hrefused.exit] at hexit
        cases hexit
    · rintro ⟨⟨base, hbase⟩, text, hread, hname⟩
      obtain ⟨ordered, -, houtcome⟩ := commandOutcome_of_found hparse hbase hread hname
      rw [houtcome]
      exact (printed_commandsOutcome _ hformat).1
  · intro base text hbase hread hname
    obtain ⟨ordered, hordered, houtcome⟩ := commandOutcome_of_found hparse hbase hread hname
    rw [houtcome]
    obtain ⟨-, hstderr, hprinted⟩ := printed_commandsOutcome
      (ordered.flatMap fun h => Command.forHarness (o.over base) h file action) hformat
    exact ⟨hstderr, ordered, hordered, hprinted⟩
  · intro hexit
    rcases answered_or_refused hparse disk file name o strategy action format with
      ⟨base, text, hbase, hread, hname⟩ | hrefused
    · obtain ⟨ordered, -, houtcome⟩ := commandOutcome_of_found hparse hbase hread hname
      rw [houtcome] at hexit
      exact absurd (printed_commandsOutcome _ hformat).1 hexit
    · exact hrefused

/-- Two harnesses of one name, that in the module being found last and standing first: what is
printed for people, and what the JSON text for them denotes. -/
theorem run_command_exact_same_names :
    let text := "mod a \x7b\n    #[kani::proof]\n    fn f() \x7b\x7d\n\x7d\n" ++
      "#[kani::proof]\nfn f() \x7b\x7d\n"
    let json := "\x7b\"package\": \"q\", \"extra_args\": [\"-v\"]\x7d"
    let disk : Disk := ⟨[("", .directory [("a.rs", .file text.toUTF8),
      ("k.json", .file json.toUTF8)])]⟩
    let words (format : String) := ["command", "a.rs", "f", "--config", "k.json", "--package", "p",
      "--module-paths", "ancestor-chain", "--format", format]
    let o : Overrides := ⟨some "k.json", some "p", none⟩
    let arguments (name : String) := ["-p", "p", "--harness", name, "-v"]
    let names := ["a::a::f", "f", "a::f", "f"]
    Faithful Node.ofSource ∧
      (∀ format ∈ [Format.human, .json], Request.ofWords (words format.name) =
        .ok (.command "a.rs" "f" o .ancestorChain .verify format)) ∧
      (named Node.ofSource text "f" .ancestorChain).map (fun h => h.stop.row) = [5, 2] ∧
      (runWith Node.ofSource disk "" "" (words "human")).exit = 0 ∧
      (runWith Node.ofSource disk "" "" (words "human")).stdout =
        "cargo-kani -p p --harness a::a::f -v\ncargo-kani -p p --harness f -v\n" ++
        "cargo-kani -p p --harness a::f -v\ncargo-kani -p p --harness f -v\n" ∧
      ∀ v, Json.Denotes (runWith Node.ofSource disk "" "" (words "json")).stdout v ↔
        v = .list (names.map fun name => .object [("program", .string "cargo-kani"),
          ("args", .list ((arguments name).map .string))]) := by
  intro text json disk words o arguments names
  have hwords : ∀ format ∈ [Format.human, .json], Request.ofWords (words format.name) =
      .ok (.command "a.rs" "f" o .ancestorChain .verify format) := by decide +kernel
  have hread : disk.read "a.rs" = .ok text := by decide +kernel
  have hload : disk.read "k.json" = .ok json := by decide +kernel
  have hbase : IsBase disk o.file ⟨"cargo-kani", some "q", ["-v"]⟩ :=
    .file hload (by decide +kernel)
  have hrows :
      (named Node.ofSource text "f" .ancestorChain).map (fun h => h.stop.row) = [5, 2] := by
    decide +kernel
  have hne : named Node.ofSource text "f" .ancestorChain ≠ [] := by
    intro hnil
    rw [hnil] at hrows
    cases hrows
  have hnamed : ∃ h ∈ Harness.ofTree (Node.ofSource text), h.name = "f" := named_ne_nil_iff.1 hne
  -- Sorting exchanges two harnesses that come in the wrong order.
  have hsorted : ∀ found : List Harness, (found.map fun h => h.stop.row) = [5, 2] →
      found.mergeSort Harness.rowLe = found.reverse := by
    intro found hfound
    obtain ⟨h, rest, rfl, hh, hrest⟩ := List.map_eq_cons_iff.1 hfound
    obtain ⟨k, rfl, hk⟩ := List.map_eq_singleton_iff.1 hrest
    simp [List.mergeSort, Harness.rowLe, hh, hk]
  have hcommands : ((named Node.ofSource text "f" .ancestorChain).reverse.flatMap fun h =>
      Command.forHarness (o.over ⟨"cargo-kani", some "q", ["-v"]⟩) h "a.rs" .verify) =
        names.map fun name => ⟨"cargo-kani", arguments name⟩ := by
    decide +kernel
  have hprinted : ∀ format ∈ [Format.human, .json],
      (runWith Node.ofSource disk "" "" (words format.name)).exit = 0 ∧
        Printed (names.map fun name => ⟨"cargo-kani", arguments name⟩)
          (runWith Node.ofSource disk "" "" (words format.name)).stdout format := by
    intro format hformat
    have hmarkdown : format ≠ .markdown := by
      rintro rfl
      simp at hformat
    obtain ⟨hexit, hanswer, -⟩ :=
      run_command_exact faithful_ofSource disk "" "" (hwords format hformat) hmarkdown
    obtain ⟨-, ordered, hordered, hprinted⟩ := hanswer _ text hbase hread hnamed
    rw [hordered.eq (Harness.inRowOrder_mergeSort _), hsorted _ hrows, hcommands] at hprinted
    exact ⟨hexit.2 ⟨⟨_, hbase⟩, text, hread, hnamed⟩, hprinted⟩
  obtain ⟨hexit, hhuman⟩ := hprinted .human (by simp)
  obtain ⟨-, hjson⟩ := hprinted .json (by simp)
  refine ⟨faithful_ofSource, hwords, hrows, hexit, ?_, ?_⟩
  · exact String.toList_inj.1 (hhuman.trans (by decide +kernel))
  · intro v
    exact (hjson v).trans (by rw [List.map_map]; rfl)

end ProofHarness.CommandLine
