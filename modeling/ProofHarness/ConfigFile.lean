import ProofHarness.Config
import ProofHarness.Disk.Basic

/-!
# Configuration files

The configuration that a file holds, or why it cannot be used.
-/

set_option autoImplicit false

namespace ProofHarness

/-- Why a configuration file cannot be used. -/
inductive ConfigError where
  | read (path : String) (error : Disk.FileError)
  | invalid (path : String) (reason : String)
  deriving DecidableEq, Repr

namespace ConfigError

/-- The wording of what lies behind an error. -/
def reason : ConfigError → String
  | .read _ error => error.message
  | .invalid _ reason => reason

/-- The wording of an error. -/
def message : ConfigError → String
  | .read path error => "failed to read config " ++ path ++ ": " ++ error.message
  | .invalid path reason => "invalid config " ++ path ++ ": " ++ reason

end ConfigError

/-- The configuration that the file at a path holds. -/
def Config.ofFile (disk : Disk) (path : String) : Except ConfigError Config :=
  match disk.read path with
  | .error e => .error (.read path e)
  | .ok text =>
    match Config.ofJson text with
    | .ok config => .ok config
    | .error fault => .error (.invalid path (fault.message text.toList))

end ProofHarness
