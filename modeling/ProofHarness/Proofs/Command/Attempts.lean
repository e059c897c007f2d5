import Mathlib.Data.List.Nodup
import ProofHarness.Command
import ProofHarness.Proofs.Target.Candidate

/-!
# The commands for a harness

Whatever the action, the arguments of a command are those before the request for a harness, the
request, those after it, and the further arguments of the configuration (`forAction_eq`); only the
request depends on the name.  A harness has a command for its candidate and one for its bare name,
or only one where these are the same (`exists_attempts`).

Names, packages and further arguments may look like flags.  A word stands at a place because the
program writes it if it stands there for every choice of these strings (`IsWritten`).
-/

set_option autoImplicit false

namespace ProofHarness

variable {h : Harness} {file : String}

/-! ## The names to try -/

/-- Without modules the name alone is tried. -/
theorem Target.attempts_of_nil (hnames : qualifiers h.module file = []) :
    (Target.ofHarness h file).attempts = [h.name] := by
  have hsame : (qualify h.name h.module file).candidate = h.name := candidate_eq_name_iff.2 hnames
  simp [Target.attempts, Target.ofHarness, hsame]

/-- With modules the qualified name is tried first. -/
theorem Target.attempts_of_ne_nil (hnames : qualifiers h.module file ≠ []) :
    (Target.ofHarness h file).attempts =
      [joinModules (qualifiers h.module file) ++ "::" ++ h.name, h.name] := by
  have hdiffer : h.name ≠ (qualify h.name h.module file).candidate :=
    fun heq => hnames (candidate_eq_name_iff.1 heq.symm)
  have hcandidate : (qualify h.name h.module file).candidate =
      joinModules (qualifiers h.module file) ++ "::" ++ h.name := candidate_eq_append hnames
  rw [Target.attempts, Target.ofHarness, if_neg (by simpa using hdiffer), hcandidate]

/-- There are one or two attempts. -/
theorem Target.length_attempts_eq_one_or_two (t : Target) :
    t.attempts.length = 1 ∨ t.attempts.length = 2 := by
  rw [Target.attempts]
  split
  · exact .inl rfl
  · exact .inr rfl

/-- There is one attempt exactly where there are no modules. -/
theorem Target.length_attempts_eq_one_iff :
    (Target.ofHarness h file).attempts.length = 1 ↔ qualifiers h.module file = [] := by
  by_cases hnames : qualifiers h.module file = []
  · simp [Target.attempts_of_nil hnames, hnames]
  · simp [Target.attempts_of_ne_nil hnames, hnames]

/-- The last attempt is the name alone. -/
theorem Target.getLast?_attempts : (Target.ofHarness h file).attempts.getLast? = some h.name := by
  by_cases hnames : qualifiers h.module file = []
  · rw [Target.attempts_of_nil hnames]
    rfl
  · rw [Target.attempts_of_ne_nil hnames]
    rfl

/-- No name is tried twice. -/
theorem Target.nodup_attempts (t : Target) : t.attempts.Nodup := by
  rw [Target.attempts]
  split
  · exact List.nodup_singleton _
  · next hdiffer =>
    have hne : t.qualified.candidate ≠ t.bare := fun heq => hdiffer (by rw [heq]; simp)
    simpa using hne

namespace Command

/-! ## The arguments around a name -/

/-- The arguments before the request for a harness. -/
def argumentsBefore (config : Config) (flags : Flags) : Action → List String
  | .verify => packageArguments config "-p"
  | .playback => testArguments flags

/-- The arguments after the request for a harness, up to those for stubs. -/
def argumentsAfter (config : Config) (flags : Flags) : Action → List String
  | .verify => testArguments flags
  | .playback => packageArguments config "-p" ++ unstable "concrete-playback" ++
      ["--concrete-playback=inplace"]

variable {config other : Config} {flags : Flags} {action : Action} {place : Nat} {word : String}

/-- The arguments of a command, split at the name. -/
theorem forAction_eq (config : Config) (name : String) (flags : Flags) (action : Action) :
    forAction config name flags action =
      ⟨config.program, argumentsBefore config flags action ++
        "--harness" :: name ::
          (argumentsAfter config flags action ++ stubArguments flags ++ config.extra)⟩ := by
  cases action with
  | verify => simp [forAction, verify, argumentsBefore, argumentsAfter]
  | playback => simp [forAction, playback, argumentsBefore, argumentsAfter]

/-- How many arguments a package takes depends on whether there is one. -/
theorem length_packageArguments_congr (hpackage : other.package.isSome = config.package.isSome)
    (flag : String) :
    (packageArguments other flag).length = (packageArguments config flag).length := by
  unfold packageArguments
  cases hother : other.package <;> cases hconfig : config.package <;>
    simp [hother, hconfig] at hpackage ⊢

/-- So does the number of arguments before the name. -/
theorem length_argumentsBefore_congr (hpackage : other.package.isSome = config.package.isSome) :
    (argumentsBefore other flags action).length = (argumentsBefore config flags action).length := by
  cases action with
  | verify => exact length_packageArguments_congr hpackage "-p"
  | playback => rfl

/-- So does the number of arguments after it. -/
theorem length_argumentsAfter_congr (hpackage : other.package.isSome = config.package.isSome) :
    (argumentsAfter other flags action).length = (argumentsAfter config flags action).length := by
  cases action with
  | verify => rfl
  | playback =>
    simp only [argumentsAfter, List.length_append, length_packageArguments_congr hpackage "-p"]

/-! ## Words that the program writes -/

/-- A word that stands once in a list stands at one place. -/
theorem getElem?_append_cons_iff {a b : List String} (ha : word ∉ a) (hb : word ∉ b) :
    (a ++ word :: b)[place]? = some word ↔ place = a.length := by
  constructor
  · intro hword
    rcases Nat.lt_trichotomy place a.length with hlt | heq | hgt
    · rw [List.getElem?_append_left hlt] at hword
      exact absurd (List.mem_of_getElem? hword) ha
    · exact heq
    · obtain ⟨k, rfl⟩ := Nat.exists_eq_add_of_lt hgt
      rw [List.getElem?_append_right (by omega), Nat.add_assoc, Nat.add_sub_cancel_left,
        List.getElem?_cons_succ] at hword
      exact absurd (List.mem_of_getElem? hword) hb
  · rintro rfl
    simp

/-- The word stands at a place of the arguments whatever name is asked for and whatever strings the
configuration holds; given are only the flags, the action and whether there is a package. -/
def IsWritten (config : Config) (flags : Flags) (action : Action) (place : Nat) (word : String) :
    Prop :=
  ∀ (other : Config) (name : String), other.package.isSome = config.package.isSome →
    (forAction other name flags action).arguments[place]? = some word

/-- The configuration with empty strings. -/
def blank (config : Config) : Config := ⟨"", config.package.map fun _ => "", []⟩

/-- A written word has its place also where all that is given is blank. -/
theorem IsWritten.getElem?_blank (hword : IsWritten config flags action place word) :
    (argumentsBefore (blank config) flags action ++
      "--harness" :: "" :: (argumentsAfter (blank config) flags action ++
        stubArguments flags))[place]? = some word := by
  have hblank := hword (blank config) "" Option.isSome_map
  rw [forAction_eq] at hblank
  simpa [blank] using hblank

/-- The words that can stand around the request for a harness if all strings are empty. -/
def fixedWords (flags : Flags) : List String :=
  ["-p", "", "-Z", "concrete-playback", "--concrete-playback=inplace"] ++ testArguments flags ++
    stubArguments flags

/-- A package that is blank leaves the flag and an empty word. -/
theorem packageArguments_blank_subset (config : Config) :
    packageArguments (blank config) "-p" ⊆ ["-p", ""] := by
  cases hpackage : config.package <;> simp [packageArguments, blank, hpackage]

/-- Where all that is given is blank only fixed words stand around the name. -/
theorem around_subset_fixedWords (config : Config) (flags : Flags) (action : Action) :
    argumentsBefore (blank config) flags action ++
      (argumentsAfter (blank config) flags action ++ stubArguments flags) ⊆ fixedWords flags := by
  have hpackage : packageArguments (blank config) "-p" ⊆ fixedWords flags :=
    List.Subset.trans (packageArguments_blank_subset config) (by simp [fixedWords])
  have htests : testArguments flags ⊆ fixedWords flags := by
    intro word hword
    simp [fixedWords, hword]
  have hstub : stubArguments flags ⊆ fixedWords flags := by
    intro word hword
    simp [fixedWords, hword]
  have hplayback : unstable "concrete-playback" ++ ["--concrete-playback=inplace"] ⊆
      fixedWords flags := by
    simp [unstable, fixedWords]
  cases action with
  | verify =>
    exact List.append_subset.2 ⟨hpackage, List.append_subset.2 ⟨htests, hstub⟩⟩
  | playback =>
    rw [argumentsBefore, argumentsAfter, List.append_assoc (packageArguments _ _)]
    exact List.append_subset.2 ⟨htests, List.append_subset.2
      ⟨List.append_subset.2 ⟨hpackage, hplayback⟩, hstub⟩⟩

/-- Of the fixed words two depend on the flags of the harness. -/
theorem fixedWords_cases (hword : word ∈ fixedWords flags) :
    word ∈ ["-p", "", "-Z", "concrete-playback", "--concrete-playback=inplace"] ∨
      (word = "--tests" ∧ flags.isTest = true) ∨ (word = "stubbing" ∧ flags.hasStub = true) := by
  rw [fixedWords, List.mem_append, List.mem_append] at hword
  rcases hword with (halways | htests) | hstub
  · exact .inl halways
  · unfold testArguments at htests
    split at htests
    · next htest => exact .inr (.inl ⟨List.mem_singleton.1 htests, htest⟩)
    · cases htests
  · unfold stubArguments unstable at hstub
    split at hstub
    · next hwith =>
      rcases List.mem_pair.1 hstub with rfl | rfl
      · exact .inl (by decide)
      · exact .inr (.inr ⟨rfl, hwith⟩)
    · cases hstub

/-- The flag for the name stands where the arguments before it end. -/
theorem isWritten_harness_iff :
    IsWritten config flags action place "--harness" ↔
      place = (argumentsBefore config flags action).length := by
  have hfixed : "--harness" ∉ fixedWords flags := by
    intro hword
    simpa using fixedWords_cases hword
  have hbefore : "--harness" ∉ argumentsBefore (blank config) flags action := by
    intro hword
    exact hfixed (around_subset_fixedWords config flags action (List.mem_append_left _ hword))
  have hafter : "--harness" ∉ "" :: (argumentsAfter (blank config) flags action ++
      stubArguments flags) := by
    intro hword
    have hword : "--harness" ∈ argumentsAfter (blank config) flags action ++ stubArguments flags :=
      List.mem_of_ne_of_mem (by decide) hword
    exact hfixed (around_subset_fixedWords config flags action (List.mem_append_right _ hword))
  constructor
  · intro hword
    rw [(getElem?_append_cons_iff hbefore hafter).1 hword.getElem?_blank]
    exact length_argumentsBefore_congr Option.isSome_map
  · rintro rfl other name hpackage
    rw [forAction_eq, ← length_argumentsBefore_congr hpackage]
    simp

/-- Written words stand before the further arguments. -/
theorem IsWritten.lt (hword : IsWritten config flags action place word) :
    place < (argumentsBefore config flags action).length + 2 +
      (argumentsAfter config flags action ++ stubArguments flags).length := by
  -- Empty strings leave all places as they are, and there are no further arguments then.
  have hplace := (List.getElem?_eq_some_iff.1 hword.getElem?_blank).1
  have hbefore : (argumentsBefore (blank config) flags action).length =
      (argumentsBefore config flags action).length := length_argumentsBefore_congr Option.isSome_map
  have hafter : (argumentsAfter (blank config) flags action).length =
      (argumentsAfter config flags action).length := length_argumentsAfter_congr Option.isSome_map
  simp only [List.length_append, List.length_cons, hbefore, hafter] at hplace ⊢
  omega

/-- All written words but the flag for the name are fixed words. -/
theorem IsWritten.mem_fixedWords (hword : IsWritten config flags action place word)
    (hrequest : word ∉ ["--harness", ""]) : word ∈ fixedWords flags := by
  have hmem := List.mem_of_getElem? hword.getElem?_blank
  have hne : word ≠ "--harness" ∧ word ≠ "" := by simpa using hrequest
  rcases List.mem_append.1 hmem with hbefore | hrest
  · exact around_subset_fixedWords config flags action (List.mem_append_left _ hbefore)
  · have hafter := List.mem_of_ne_of_mem hne.2 (List.mem_of_ne_of_mem hne.1 hrest)
    exact around_subset_fixedWords config flags action (List.mem_append_right _ hafter)

/-- The flag for tests is written exactly for tests. -/
theorem exists_isWritten_tests_iff :
    (∃ place < (argumentsBefore config flags action).length + 2 +
        (argumentsAfter config flags action ++ stubArguments flags).length,
      IsWritten config flags action place "--tests") ↔ flags.isTest = true := by
  constructor
  · rintro ⟨place, -, hword⟩
    simpa using fixedWords_cases (hword.mem_fixedWords (by decide))
  · intro htest
    suffices hwritten : ∃ place, IsWritten config flags action place "--tests" from
      hwritten.imp fun place hword => ⟨hword.lt, hword⟩
    cases action with
    | verify =>
      refine ⟨(packageArguments config "-p").length + 2, ?_⟩
      intro other name hpackage
      rw [forAction_eq, ← length_packageArguments_congr hpackage "-p"]
      simp [argumentsBefore, argumentsAfter, testArguments, htest]
    | playback =>
      refine ⟨0, ?_⟩
      intro other name _
      simp [forAction_eq, argumentsBefore, testArguments, htest]

/-- The feature for stubs is written exactly for harnesses with stubs. -/
theorem exists_isWritten_stubbing_iff :
    (∃ place, place + 1 < (argumentsBefore config flags action).length + 2 +
        (argumentsAfter config flags action ++ stubArguments flags).length ∧
      IsWritten config flags action place "-Z" ∧
        IsWritten config flags action (place + 1) "stubbing") ↔ flags.hasStub = true := by
  constructor
  · rintro ⟨place, -, -, hword⟩
    simpa using fixedWords_cases (hword.mem_fixedWords (by decide))
  · intro hstub
    -- The arguments for stubs are the last ones that the program writes.
    have hwritten : ∀ (other : Config) (name : String),
        other.package.isSome = config.package.isSome →
          let place := (argumentsBefore config flags action).length + 2 +
            (argumentsAfter config flags action).length
          (forAction other name flags action).arguments[place]? = some "-Z" ∧
            (forAction other name flags action).arguments[place + 1]? = some "stubbing" := by
      intro other name hpackage place
      obtain ⟨front, harguments, hplace⟩ : ∃ front, (forAction other name flags action).arguments =
          front ++ "-Z" :: "stubbing" :: other.extra ∧ place = front.length := by
        refine ⟨argumentsBefore other flags action ++ "--harness" :: name ::
          argumentsAfter other flags action, ?_, ?_⟩
        · rw [forAction_eq]
          simp [stubArguments, unstable, hstub]
        · simp only [place, List.length_append, List.length_cons,
            length_argumentsBefore_congr hpackage, length_argumentsAfter_congr hpackage]
          omega
      rw [harguments, hplace]
      simp
    have hfeature : IsWritten config flags action _ "stubbing" :=
      fun other name hpackage => (hwritten other name hpackage).2
    exact ⟨_, hfeature.lt, fun other name hpackage => (hwritten other name hpackage).1, hfeature⟩

/-! ## The commands -/

/-- How the commands for a harness go together: they differ in the name that they ask for, which
stands between the same arguments `before` and `after`. -/
structure Attempts (config : Config) (h : Harness) (file : String) (action : Action)
    (before after names : List String) : Prop where
  commands : forHarness config h file action = names.map fun name =>
    ⟨config.program, before ++ "--harness" :: name :: (after ++ config.extra)⟩
  distinct : (forHarness config h file action).Nodup
  length : names.length = 1 ∨ names.length = 2
  last : names.getLast? = some h.name
  single : names.length = 1 ↔
    (∀ stem, Disk.fileStem? file = some stem → stem = "" ∨ stem ∈ rootStems) ∧
      (h.module = none ∨ h.module = some "")
  qualified : names.length ≠ 1 → ∃ path, names.head? = some (path ++ "::" ++ h.name)
  request : ∀ place, IsWritten config h.flags action place "--harness" ↔ place = before.length
  tests : (∃ place < before.length + 2 + after.length,
    IsWritten config h.flags action place "--tests") ↔ h.flags.isTest = true
  stubbing : (∃ place, place + 1 < before.length + 2 + after.length ∧
    IsWritten config h.flags action place "-Z" ∧
      IsWritten config h.flags action (place + 1) "stubbing") ↔ h.flags.hasStub = true

/-- The commands of a harness differ in the name only. -/
theorem forHarness_eq_map (config : Config) (h : Harness) (file : String) (action : Action) :
    forHarness config h file action = (Target.ofHarness h file).attempts.map fun name =>
      ⟨config.program, argumentsBefore config h.flags action ++ "--harness" :: name ::
        (argumentsAfter config h.flags action ++ stubArguments h.flags ++ config.extra)⟩ := by
  unfold forHarness forTarget
  apply List.map_congr_left
  intro name _
  exact forAction_eq config name h.flags action

/-- No two of them are the same. -/
theorem nodup_forHarness (config : Config) (h : Harness) (file : String) (action : Action) :
    (forHarness config h file action).Nodup := by
  rw [forHarness_eq_map]
  apply (Target.nodup_attempts _).map
  intro a b hab
  have harguments := congrArg Command.arguments hab
  simpa using harguments

/-- The commands of a harness: one or two, for the names that are tried in this order, the same but
for the name; written words tell the flags of the harness, and the further arguments come last. -/
theorem exists_attempts (config : Config) (h : Harness) (file : String) (action : Action) :
    ∃ before after names, Attempts config h file action before after names := by
  refine ⟨argumentsBefore config h.flags action,
    argumentsAfter config h.flags action ++ stubArguments h.flags,
    (Target.ofHarness h file).attempts, ?_⟩
  constructor
  case commands => exact forHarness_eq_map config h file action
  case distinct => exact nodup_forHarness config h file action
  case length => exact Target.length_attempts_eq_one_or_two _
  case last => exact Target.getLast?_attempts
  case single => rw [Target.length_attempts_eq_one_iff, qualifiers_eq_nil_iff]
  case qualified =>
    intro hmany
    have hnames : qualifiers h.module file ≠ [] := mt Target.length_attempts_eq_one_iff.2 hmany
    exact ⟨_, by rw [Target.attempts_of_ne_nil hnames, List.head?_cons]⟩
  case request =>
    intro place
    exact isWritten_harness_iff
  case tests => exact exists_isWritten_tests_iff
  case stubbing => exact exists_isWritten_stubbing_iff

/-- A package that looks like a flag of the program. -/
example :
    let h : Harness := { (default : Harness) with name := "check", flags := ⟨true, true, false⟩ }
    (forHarness ⟨"cargo-kani", some "--tests", ["-q"]⟩ h "src/buf.rs" .verify).map arguments =
      [["-p", "--tests", "--harness", "buf::check", "--tests", "-q"],
        ["-p", "--tests", "--harness", "check", "--tests", "-q"]] := by
  decide +kernel

end Command

end ProofHarness
