import EntityScaffold.Path
import EntityScaffold.Naming
import EntityScaffold.Text.Blank

/-!
# Configuration

Where entity files live, how they are named and indented, and how they are written.
-/

set_option autoImplicit false

namespace EntityScaffold

open Text

/-- The settings of a run. -/
structure Config where
  entityDir : Path := .ofText "app/Entity"
  repositoryDir : Path := .ofText "app/Repository"
  entityNamespace : Text := "App\\Entity"
  repositoryNamespace : Text := "App\\Repository"
  attributeNamespace : Text := "MonkeysLegion\\Entity\\Attributes"
  repositoryBaseClass : Text := "MonkeysLegion\\Repository\\EntityRepository"
  /-- Whether a new entity gets a repository. -/
  generateRepository : Bool := true
  /-- The number of spaces of an indentation, from two to eight. -/
  indentSize : Nat := 4
  /-- Whether a file is written beside its place and moved there. -/
  atomicWrites : Bool := true
  /-- Whether lock files guard the entity files. -/
  lockFiles : Bool := true
  /-- Whether nothing is written at all. -/
  dryRun : Bool := false
  deriving DecidableEq, Repr, Inhabited

namespace Config

def indent (c : Config) : Text := List.replicate c.indentSize ' '

/-- The qualified name of an entity. -/
def entityClass (c : Config) (name : Text) : Text := qualify name c.entityNamespace

/-- A namespace without white space around it and without backslashes at its ends. -/
def cleanNamespace (t : Text) : Text := trimWhile (· == '\\') (strip t)

/-- A truth value in a description. -/
def truthText (b : Bool) : Text := if b then "True" else "False"

def pathText (p : Path) : Text := "PosixPath(" ++ quoted p.text ++ ")"

def describe (c : Config) : Text :=
  "GenerationConfig(entity_dir=" ++ pathText c.entityDir ++
    ", repository_dir=" ++ pathText c.repositoryDir ++
    ", entity_namespace=" ++ quoted c.entityNamespace ++
    ", repository_namespace=" ++ quoted c.repositoryNamespace ++
    ", attribute_namespace=" ++ quoted c.attributeNamespace ++
    ", repository_base_class=" ++ quoted c.repositoryBaseClass ++
    ", generate_repository=" ++ truthText c.generateRepository ++
    ", indent_size=" ++ ofNat c.indentSize ++
    ", atomic_writes=" ++ truthText c.atomicWrites ++
    ", lock_files=" ++ truthText c.lockFiles ++
    ", dry_run=" ++ truthText c.dryRun ++
    ", indent=" ++ quoted c.indent ++ ")"

end Config

end EntityScaffold
