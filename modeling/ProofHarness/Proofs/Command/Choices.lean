import ProofHarness.Proofs.Command.Attempts

/-!
# Verifying and generating a test

The command that generates a test for a harness makes the same choices as the one that verifies it,
in another order, and two more (`playback_arguments`, `playbackChoices_perm`).  With the same
configuration the arguments tell what they were made from: how many there are says which of the
flags were set (`length_arguments`), and where the counts of the two actions agree the words differ
(`verify_arguments_ne_playback_arguments`).  Only strings that both commands have at the same place
are compared, so that it does not matter which of the words come from the user.
-/

set_option autoImplicit false

namespace ProofHarness.Command

variable {config : Config} {name name' : String} {flags flags' : Flags} {action action' : Action}

/-! ## Choices -/

/-- A flag, with its value if it takes one. -/
structure Choice where
  flag : String
  value : Option String
  deriving DecidableEq, Repr

/-- The arguments for a choice: a value stands right after its flag. -/
def Choice.arguments (c : Choice) : List String := c.flag :: c.value.toList

/-- The choice of a package. -/
def packageChoices (config : Config) : List Choice :=
  config.package.toList.map fun package => ⟨"-p", some package⟩

/-- The choices for a harness that is a test. -/
def testChoices (flags : Flags) : List Choice :=
  if flags.isTest then [⟨"--tests", none⟩] else []

/-- The choices for a harness with stubs. -/
def stubChoices (flags : Flags) : List Choice :=
  if flags.hasStub then [⟨"-Z", some "stubbing"⟩] else []

/-- The choices that are made to verify a harness. -/
def verifyChoices (config : Config) (name : String) (flags : Flags) : List Choice :=
  packageChoices config ++ [⟨"--harness", some name⟩] ++ testChoices flags ++ stubChoices flags

/-- The choices that a generated test needs besides. -/
def testGeneration : List Choice :=
  [⟨"-Z", some "concrete-playback"⟩, ⟨"--concrete-playback=inplace", none⟩]

/-- The choices that are made to generate a test for a harness. -/
def playbackChoices (config : Config) (name : String) (flags : Flags) : List Choice :=
  testChoices flags ++ [⟨"--harness", some name⟩] ++ packageChoices config ++ testGeneration ++
    stubChoices flags

/-- The choice of a package is written as its arguments. -/
theorem flatMap_packageChoices (config : Config) :
    (packageChoices config).flatMap Choice.arguments = packageArguments config "-p" := by
  unfold packageChoices packageArguments
  cases config.package <;> rfl

/-- So is the choice of tests. -/
theorem flatMap_testChoices (flags : Flags) :
    (testChoices flags).flatMap Choice.arguments = testArguments flags := by
  unfold testChoices testArguments
  cases flags.isTest <;> rfl

/-- So is the choice of stubs. -/
theorem flatMap_stubChoices (flags : Flags) :
    (stubChoices flags).flatMap Choice.arguments = stubArguments flags := by
  unfold stubChoices stubArguments
  cases flags.hasStub <;> rfl

/-- A verification is written choice by choice. -/
theorem verify_arguments (config : Config) (name : String) (flags : Flags) :
    (verify config name flags).arguments =
      (verifyChoices config name flags).flatMap Choice.arguments ++ config.extra := by
  simp [verify, verifyChoices, flatMap_packageChoices, flatMap_testChoices, flatMap_stubChoices,
    Choice.arguments]

/-- So is the generation of a test. -/
theorem playback_arguments (config : Config) (name : String) (flags : Flags) :
    (playback config name flags).arguments =
      (playbackChoices config name flags).flatMap Choice.arguments ++ config.extra := by
  simp [playback, playbackChoices, testGeneration, unstable, flatMap_packageChoices,
    flatMap_testChoices, flatMap_stubChoices, Choice.arguments]

/-- Generating a test takes the choices of verifying, in another order, and two more. -/
theorem playbackChoices_perm (config : Config) (name : String) (flags : Flags) :
    (playbackChoices config name flags).Perm
      (verifyChoices config name flags ++ testGeneration) := by
  have hswap : ∀ harness : List Choice, (testChoices flags ++ harness ++ packageChoices config).Perm
      (packageChoices config ++ harness ++ testChoices flags) := by
    intro harness
    refine List.perm_append_comm.trans ?_
    rw [List.append_assoc (packageChoices config)]
    exact List.perm_append_comm.append_left _
  have hstub : (testGeneration ++ stubChoices flags).Perm (stubChoices flags ++ testGeneration) :=
    List.perm_append_comm
  unfold playbackChoices verifyChoices
  rw [List.append_assoc _ testGeneration, List.append_assoc _ (stubChoices flags)]
  exact (hswap _).append hstub

/-- The arguments are those of verifying, in another order, with three more words. -/
theorem playback_arguments_perm (config : Config) (name : String) (flags : Flags) :
    (playback config name flags).arguments.Perm ((verify config name flags).arguments ++
      ["-Z", "concrete-playback", "--concrete-playback=inplace"]) := by
  have hchoices := (playbackChoices_perm config name flags).flatMap_right Choice.arguments
  have hgeneration : testGeneration.flatMap Choice.arguments =
      ["-Z", "concrete-playback", "--concrete-playback=inplace"] := rfl
  rw [List.flatMap_append, hgeneration] at hchoices
  rw [playback_arguments, verify_arguments, List.append_assoc]
  refine (hchoices.append_right config.extra).trans ?_
  rw [List.append_assoc]
  exact List.perm_append_comm.append_left _

/-! ## What the arguments tell -/

/-- One argument for a test, none otherwise. -/
theorem length_testArguments (flags : Flags) :
    (testArguments flags).length = flags.isTest.toNat := by
  unfold testArguments
  cases flags.isTest <;> rfl

/-- Two arguments for stubs, none otherwise. -/
theorem length_stubArguments (flags : Flags) :
    (stubArguments flags).length = 2 * flags.hasStub.toNat := by
  unfold stubArguments
  cases flags.hasStub <;> rfl

/-- The number of arguments, apart from those that the configuration decides on. -/
def chosenLength (flags : Flags) : Action → Nat
  | .verify => flags.isTest.toNat + 2 * flags.hasStub.toNat
  | .playback => flags.isTest.toNat + 2 * flags.hasStub.toNat + 3

/-- How many arguments there are depends on the flags, the package and the further arguments only.
-/
theorem length_arguments (config : Config) (name : String) (flags : Flags) (action : Action) :
    (forAction config name flags action).arguments.length =
      chosenLength flags action + ((packageArguments config "-p").length + 2 +
        config.extra.length) := by
  cases action <;>
    simp only [forAction, verify, playback, unstable, chosenLength, List.length_append,
      List.length_cons, List.length_nil, length_testArguments, length_stubArguments] <;>
    omega

/-- The flags of two commands for one action are known from the number of arguments. -/
theorem flags_eq_of_chosenLength (h : chosenLength flags action = chosenLength flags' action) :
    flags.isTest = flags'.isTest ∧ flags.hasStub = flags'.hasStub := by
  have hinj : ∀ a b : Bool, a.toNat = b.toNat → a = b := by decide
  have hle := flags.isTest.toNat_lt
  have hle' := flags'.isTest.toNat_lt
  have hnumbers : flags.isTest.toNat = flags'.isTest.toNat ∧
      flags.hasStub.toNat = flags'.hasStub.toNat := by
    cases action <;> simp only [chosenLength] at h <;> omega
  exact ⟨hinj _ _ hnumbers.1, hinj _ _ hnumbers.2⟩

/-- Only a test with stubs has as many arguments to be verified as another harness has to generate a
test, and those begin in another way. -/
theorem verify_arguments_ne_playback_arguments :
    (verify config name flags).arguments ≠ (playback config name' flags').arguments := by
  intro h
  have hlength : chosenLength flags .verify = chosenLength flags' .playback := by
    have hsame := congrArg List.length h
    rw [show verify config name flags = forAction config name flags .verify from rfl,
      show playback config name' flags' = forAction config name' flags' .playback from rfl,
      length_arguments, length_arguments] at hsame
    omega
  have htest : flags.isTest = true ∧ flags'.isTest = false := by
    have hle := flags.isTest.toNat_lt
    have hle' := flags.hasStub.toNat_lt
    have hnumbers : flags.isTest.toNat = 1 ∧ flags'.isTest.toNat = 0 := by
      simp only [chosenLength] at hlength
      omega
    exact ⟨Bool.toNat_eq_one.1 hnumbers.1, Bool.toNat_eq_zero.1 hnumbers.2⟩
  cases hpackage : config.package with
  | none =>
    simp [verify, playback, packageArguments, testArguments, unstable, hpackage, htest] at h
  | some package =>
    simp [verify, playback, packageArguments, testArguments, hpackage, htest] at h

/-- The name can be read off the arguments. -/
theorem name_eq_of_arguments_eq (htest : flags.isTest = flags'.isTest)
    (h : (forAction config name flags action).arguments =
      (forAction config name' flags' action).arguments) : name = name' := by
  have hbefore : argumentsBefore config flags action = argumentsBefore config flags' action := by
    cases action with
    | verify => rfl
    | playback => rw [argumentsBefore, argumentsBefore, testArguments, testArguments, htest]
  rw [forAction_eq, forAction_eq, hbefore, List.append_cancel_left_eq, List.cons.injEq,
    List.cons.injEq] at h
  exact h.2.1

/-- With one configuration the arguments determine the name, the flags and the action, whatever
strings these are. -/
theorem arguments_eq_iff :
    (forAction config name flags action).arguments =
        (forAction config name' flags' action').arguments ↔
      name = name' ∧ flags.isTest = flags'.isTest ∧ flags.hasStub = flags'.hasStub ∧
        action = action' := by
  constructor
  · intro h
    have haction : action = action' := by
      cases action <;> cases action'
      case verify.verify => rfl
      case playback.playback => rfl
      case verify.playback => exact absurd h verify_arguments_ne_playback_arguments
      case playback.verify => exact absurd h.symm verify_arguments_ne_playback_arguments
    subst haction
    have hlength : chosenLength flags action = chosenLength flags' action := by
      have hsame := congrArg List.length h
      rw [length_arguments, length_arguments] at hsame
      omega
    obtain ⟨htest, hstub⟩ := flags_eq_of_chosenLength hlength
    exact ⟨name_eq_of_arguments_eq htest h, htest, hstub, rfl⟩
  · rintro ⟨rfl, htest, hstub, rfl⟩
    have htests : testArguments flags = testArguments flags' := by
      rw [testArguments, testArguments, htest]
    have hstubs : stubArguments flags = stubArguments flags' := by
      rw [stubArguments, stubArguments, hstub]
    cases action <;> simp only [forAction, verify, playback, htests, hstubs]

/-- The arguments to generate a test are those to verify the harness and three more, in an order
that leaves each value right after its flag and the further arguments of the configuration at the
end; and for one configuration no two choices of name, flags and action have the same arguments. -/
theorem verify_playback_agree (config : Config) (name : String) (flags : Flags) :
    (playback config name flags).arguments.Perm ((verify config name flags).arguments ++
        ["-Z", "concrete-playback", "--concrete-playback=inplace"]) ∧
      (∃ choices : List Choice, choices.Perm (verifyChoices config name flags ++ testGeneration) ∧
        (verify config name flags).arguments =
          (verifyChoices config name flags).flatMap Choice.arguments ++ config.extra ∧
        (playback config name flags).arguments =
          choices.flatMap Choice.arguments ++ config.extra) ∧
      ∀ (name' : String) (flags' : Flags) (action action' : Action),
        (forAction config name flags action).arguments =
            (forAction config name' flags' action').arguments ↔
          name = name' ∧ flags.isTest = flags'.isTest ∧ flags.hasStub = flags'.hasStub ∧
            action = action' := by
  refine ⟨playback_arguments_perm config name flags, ?_, ?_⟩
  · exact ⟨playbackChoices config name flags, playbackChoices_perm config name flags,
      verify_arguments config name flags, playback_arguments config name flags⟩
  · intro name' flags' action action'
    exact arguments_eq_iff

end ProofHarness.Command
