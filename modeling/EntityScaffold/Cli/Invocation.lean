import EntityScaffold.Cli.Switch
import EntityScaffold.Log
import EntityScaffold.Value.Basic

/-!
# Invocations

What a command line asks for: settings that take precedence over those of plan files, how much to
tell, and one of the commands `make`, `apply`, `validate`, `list` and `types`.
-/

set_option autoImplicit false

namespace EntityScaffold.Cli

open Text

/-- The settings of a command line. -/
structure Settings where
  entityDir : Option Argument := none
  repositoryDir : Option Argument := none
  entityNamespace : Option Argument := none
  noRepository : Bool := false
  noLock : Bool := false
  dryRun : Bool := false
  /-- How often more records have been asked for. -/
  verbosity : Nat := 0
  quiet : Bool := false
  deriving DecidableEq, Repr

/-- The value of an argument; one of no words is an empty list. -/
def Argument.value : Argument → Value
  | .text t => .text t
  | .empty => .list []

/-- A setting, if it has a value. -/
def setting (key : Text) (v : Option Value) : Entries Value :=
  v.toList.map fun v => (.text key, v)

/-- The value of a setting that has been asked for. -/
def switched (asked value : Bool) : Option Value := if asked then some (.bool value) else none

/-- The settings as data of a configuration. -/
def Settings.overrides (s : Settings) : Entries Value :=
  setting "entity_dir" (s.entityDir.map (·.value)) ++
    setting "repository_dir" (s.repositoryDir.map (·.value)) ++
    setting "entity_namespace" (s.entityNamespace.map (·.value)) ++
    setting "generate_repository" (switched s.noRepository false) ++
    setting "lock_files" (switched s.noLock false) ++
    setting "dry_run" (switched s.dryRun true)

/-- Where the log begins. -/
def Settings.logLevel (s : Settings) : Log.Level :=
  if s.quiet then .error
  else match s.verbosity with
    | 0 => .warning
    | 1 => .info
    | _ => .debug

/-- What to add to one entity. -/
structure MakeRequest where
  entity : Text := []
  fields : List Argument := []
  relations : List Argument := []
  /-- The properties of relations that this side does not own. -/
  inverseSides : List Argument := []
  deriving DecidableEq, Repr

inductive Command where
  | make (r : MakeRequest)
  | apply_ (file : Text)
  | validate (file : Text)
  | list
  | types
  deriving DecidableEq, Repr

/-- The word for a command. -/
def Command.name : Command → Text
  | .make _ => "make"
  | .apply_ _ => "apply"
  | .validate _ => "validate"
  | .list => "list"
  | .types => "types"

structure Invocation where
  settings : Settings
  command : Command
  deriving DecidableEq, Repr

def helpSwitch {σ : Type} : Switch σ := ⟨["-h", "--help"], .stop .help⟩

/-- The switches before the command. -/
def settingSwitches : List (Switch Settings) := [
  helpSwitch,
  ⟨["--version"], .stop .version⟩,
  ⟨["--entity-dir"], .take fun t s => { s with entityDir := some t }⟩,
  ⟨["--repository-dir"], .take fun t s => { s with repositoryDir := some t }⟩,
  ⟨["--namespace"], .take fun t s => { s with entityNamespace := some t }⟩,
  ⟨["--no-repository"], .set fun s => { s with noRepository := true }⟩,
  ⟨["--no-lock"], .set fun s => { s with noLock := true }⟩,
  ⟨["--dry-run"], .set fun s => { s with dryRun := true }⟩,
  ⟨["-v", "--verbose"], .set fun s => { s with verbosity := s.verbosity + 1 }⟩,
  ⟨["-q", "--quiet"], .set fun s => { s with quiet := true }⟩]

/-- The switches behind `make`. -/
def makeSwitches : List (Switch MakeRequest) := [
  helpSwitch,
  ⟨["--field"], .take fun t r => { r with fields := r.fields ++ [t] }⟩,
  ⟨["--relation"], .take fun t r => { r with relations := r.relations ++ [t] }⟩,
  ⟨["--inverse-side"], .take fun t r => { r with inverseSides := r.inverseSides ++ [t] }⟩]

/-- The operand, which a command cannot do without. -/
def required {σ : Type} (r : Reading σ) : Except Stop σ :=
  if r.hasOperand && !r.hasLeftover then .ok r.settings else .error .misuse

/-- The plan file behind a command. -/
def fileOf (words : List Text) : Except Stop Text := do
  required (← read [helpSwitch] (.one fun t _ => t) [] words)

/-- Sees to it that nothing stands behind a command. -/
def nothingBehind (words : List Text) : Except Stop Unit := do
  if (← read [helpSwitch] .none () words).hasLeftover then .error .misuse else .ok ()

/-- The command that words ask for. -/
def Command.ofWords : List Text → Except Stop Command
  | [] => .error .misuse
  | name :: words => do
    if name = "make" then
      return .make (← required
        (← read makeSwitches (.one fun t r => { r with entity := t }) {} words))
    else if name = "apply" then return .apply_ (← fileOf words)
    else if name = "validate" then return .validate (← fileOf words)
    else if name = "list" then
      nothingBehind words
      return .list
    else if name = "types" then
      nothingBehind words
      return .types
    else .error .misuse

/-- The invocation that a command line is. -/
def Invocation.ofWords (words : List Text) : Except Stop Invocation := do
  let r ← read settingSwitches .rest {} words
  let command ← Command.ofWords r.rest
  if r.hasLeftover then .error .misuse else .ok ⟨r.settings, command⟩

end EntityScaffold.Cli
