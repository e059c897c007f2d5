import ProofHarness.Disk.Path
import ProofHarness.Harness.Basic
import ProofHarness.Module.Index

/-!
# Names of harnesses

The name under which the verifier is asked for a harness.  It is qualified by the file and the
modules of the harness; the bare name of the function is a second attempt.
-/

set_option autoImplicit false

namespace ProofHarness

/-- The stems of files that are the root of a module and add no name to a path. -/
def rootStems : List String := ["main", "lib", "mod"]

/-- The name that the file of a harness adds to its path. -/
def fileModule? (file : String) : Option String :=
  (Disk.fileStem? file).filter fun stem => stem != "" && !rootStems.contains stem

/-- A name with a path in front of it. -/
structure QualifiedName where
  candidate : String
  /-- Whether the path of the modules around the harness is part of it. -/
  usedModule : Bool
  deriving DecidableEq, Repr

/-- The qualified name of a harness. -/
def qualify (name : String) (module : Option String) (file : String) : QualifiedName :=
  let module := module.filter fun path => path != ""
  ⟨joinModules ((fileModule? file).toList ++ module.toList ++ [name]), module.isSome⟩

/-- The names under which a harness can be asked for. -/
structure Target where
  qualified : QualifiedName
  bare : String
  deriving DecidableEq, Repr

namespace Target

/-- The names of a harness of a file. -/
def ofHarness (h : Harness) (file : String) : Target := ⟨qualify h.name h.module file, h.name⟩

/-- The names to try in this order; one name if both are the same. -/
def attempts (t : Target) : List String :=
  t.qualified.candidate :: if t.bare == t.qualified.candidate then [] else [t.bare]

end Target

end ProofHarness
