import EntityScaffold.Generation.Run
import EntityScaffold.PlanData
import EntityScaffold.Value.Json
import EntityScaffold.Value.Yaml.Document

/-!
# Plan files

Plan files are JSON or YAML, as their ending says.  A file with another ending is read as JSON,
and if that fails as YAML.

* `PlanFile.load` — the contents of a plan file.
* `Contents.withSettings` — contents with settings that take precedence over their own.
* `PlanFile.generate` — carries out all plans of a file.
-/

set_option autoImplicit false

namespace EntityScaffold.PlanFile

open Text Storage

variable {σ : Type}

/-- What a plan file holds: the entries of a map, or a document that is one. -/
inductive Contents where
  | tree (es : Entries Value)
  | document (d : Yaml.Document)

namespace Contents

/-- The entries of contents. -/
def entries : Contents → Entries Value
  | .tree es => es
  | .document d =>
    match d.value with
    | .map es => es
    | _ => []

/-- The settings of data; none if there is no map under their key. -/
def settings (es : Entries Value) : Entries Value :=
  match Value.find? es "config" with
  | some (.map settings) => settings
  | _ => []

/-- Contents with settings that take precedence over their own. -/
def withSettings (overrides : Entries Value) : Contents → Contents
  | .tree es =>
    .tree (es.put (.text "config")
      (.map (overrides.foldl (fun s e => Entries.put s e.1 e.2) (settings es))))
  | .document d => .document (d.withSettings (.text "config") overrides)

end Contents

/-- Why a file is no plan file, given why its text is not read. -/
def planError (format : PlanFormat) (p : Path) : Misreading → PlanError
  | .malformed => .malformed format p.text
  | .content e => .content e

/-- The contents of a JSON text. -/
def jsonContents (p : Path) (t : Text) : Except PlanError Contents := do
  match ← (Json.read t).mapError (planError .json p) with
  | .map es => return .tree es
  | v => throw (.notAMap .json v.typeName)

/-- The contents of a YAML text. -/
def yamlContents (p : Path) (t : Text) : Except PlanError Contents := do
  let d ← (Yaml.Document.read t).mapError (planError .yaml p)
  if d.root?.isSome then return .document d else throw (.notAMap .yaml d.value.typeName)

/-- The contents of a file in a format. -/
def loadAs (format : PlanFormat) (p : Path) : Task σ Contents := do
  let t ← readText p
  Task.settle ((match format with
    | .json => jsonContents p t
    | .yaml => yamlContents p t).mapError .plan)

/-- Whether a file may still be well-formed in another format. -/
def isAboutContent : Failure → Bool
  | .plan _ | .undecodable _ => true
  | _ => false

/-- The contents of a file that is JSON, or else YAML. -/
def loadAsEither (p : Path) : Task σ Contents := do
  match ← Task.attempt (loadAs .json p) with
  | .ok contents => return contents
  | .error e => if isAboutContent e then loadAs .yaml p else throw e

/-- The contents of a plan file. -/
def load (p : Path) : Task σ Contents := do
  if !(← isThere p) then throw (.plan (.missingFile p.text))
  if !(← isFile p) then throw (.plan (.notAFile p.text))
  let suffix := lower p.suffix
  if suffix = ".yaml" || suffix = ".yml" then loadAs .yaml p
  else if suffix = ".json" then loadAs .json p
  else
    Task.record .info .generation
      ("Unknown extension '" ++ suffix ++ "', trying JSON then YAML.")
    loadAsEither p

/-- The plans and the configuration of contents. -/
def read (contents : Contents) : Task σ (List Plan × Config) := do
  let es := contents.entries
  Task.recordAll (PlanData.log es)
  Task.settle (PlanData.read es)

/-- Carries out all plans of a file, under settings that take precedence over the file's. -/
def generate (h : Generation.Host) (p : Path) (overrides : Entries Value) :
    Task Written (List Generation.Report) := do
  let contents ← load p
  let (plans, c) ← read
    (if overrides.isEmpty then contents else contents.withSettings overrides)
  Task.record .info .generation
    ("Loaded " ++ ofNat plans.length ++ " plan(s) from " ++ p.text ++ ".")
  let g ← Generation.Generator.start h c
  g.generateAll plans

end EntityScaffold.PlanFile
