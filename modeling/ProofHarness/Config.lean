import ProofHarness.Json.Reader
import ProofHarness.Module.Strategy

/-!
# Configuration

Where the verifier is and what is passed to it, and how harnesses are scanned; both are read from
JSON texts, in which a missing field takes its default.
-/

set_option autoImplicit false

namespace ProofHarness

/-- How the verifier is called. -/
structure Config where
  /-- The path of the verifier. -/
  program : String
  package : Option String
  /-- Arguments that come after all others. -/
  extra : List String
  deriving DecidableEq, Repr

namespace Config

/-- The configuration without any choices. -/
def default : Config := ⟨"cargo-kani", none, []⟩

instance : Inhabited Config := ⟨default⟩

/-- The fields of a configuration in a JSON text. -/
def fields : List (Json.Field Config) :=
  [⟨"cargo_kani", fun ts => (Json.readString "path string" ts).map fun r =>
      (fun config => { config with program := r.1 }, r.2)⟩,
    ⟨"package", fun ts => (Json.readNullable ts).map fun r =>
      (fun config => { config with package := r.1 }, r.2)⟩,
    ⟨"extra_args", fun ts => (Json.readStrings ts).map fun r =>
      (fun config => { config with extra := r.1 }, r.2)⟩]

/-- The configuration that a JSON text gives. -/
def ofJson (text : String) : Except Json.Fault Config :=
  Json.readText (Json.readRecord "struct VerifierConfig" fields default) text

end Config

/-- The field of scan options in a JSON text. -/
def ModulePaths.fields : List (Json.Field ModulePaths) :=
  [⟨"module_paths", fun ts =>
      (Json.readVariant (ModulePaths.all.map fun s => (s.name, s)) ts).map fun r =>
        (fun _ => r.1, r.2)⟩]

/-- The strategy that the scan options of a JSON text give. -/
def ModulePaths.ofJson (text : String) : Except Json.Fault ModulePaths :=
  Json.readText (Json.readRecord "struct ScanOptions" ModulePaths.fields .reverseIndex) text

end ProofHarness
