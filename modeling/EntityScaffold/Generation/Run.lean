import EntityScaffold.Generation.Report
import EntityScaffold.Validation.Rules

/-!
# Generating entities

One run brings one plan into the files: the plan is validated, the entity's class is opened or
begun, edited and saved while its lock is held, and then the inverse sides that the plan calls for
are written.

* `Generator.validate` — what validation finds for a plan and the entities there are.
* `Generator.generate` — one run, with its report.
-/

set_option autoImplicit false

namespace EntityScaffold.Generation

open Text Storage Source Validation

/-- Where runs take place. -/
structure Host where
  /-- What the lock files of these runs hold. -/
  owner : Text
  /-- The directory that relative paths begin at. -/
  base : List Text

/-- What runs share: where the entities are, and the directory that relative paths begin at. -/
structure Generator where
  store : Store
  base : List Text

/-- A run under way. -/
structure Run where
  written : Written
  report : Report
  backlog : Backlog := []

namespace Generator

def config (g : Generator) : Config := g.store.config

/-- The record of a generator made ready. -/
def readyRecord (c : Config) : Log.Record :=
  ⟨.debug, .generation, "EntityGenerator initialised (entity_dir=" ++ c.entityDir.text ++
    ", dry_run=" ++ Config.truthText c.dryRun ++ ")."⟩

/-- Makes a generator ready. -/
def start {σ : Type} (h : Host) (c : Config) : Task σ Generator := do
  Task.recordAll [readyRecord c]
  return { store := { config := c, owner := h.owner }, base := h.base }

/-- What validation finds.  No file is touched. -/
def validate {σ : Type} (g : Generator) (p : Plan) : Task σ Issues := do
  let known ← g.store.entities
  let issues := validatePlan p (some known)
  Task.recordAll (validationLog p issues)
  return issues ++ (← Task.orOsError (sharedDirectory g.config g.base))

/-- Changes the report. -/
def note (f : Report → Report) : Task Run Unit := modify fun r => { r with report := f r.report }

def enter (phase : Phase) : Task Run Unit := note fun r => { r with phase := phase }

/-- Adds a step to the report. -/
def step (name : Text) (success : Bool) (detail : Text) : Task Run Unit :=
  note fun r => { r with steps := r.steps ++ [⟨name, success, detail⟩] }

/-- Performs a task of the store within a run. -/
def stored {α : Type} (t : Task Written α) : Task Run α :=
  Task.onPart Run.written (fun w r => { r with written := w }) t

/-- Validates the plan and tells whether it may be carried out. -/
def checkPlan (g : Generator) (p : Plan) : Task Run Bool := do
  let issues ← Task.timed ("validate " ++ p.name) (g.validate p)
  let errors := issues.errors.map (·.line)
  let warnings := issues.warnings.map (·.line)
  note fun r => { r with validationErrors := errors, validationWarnings := warnings }
  if issues.isValid then
    Task.recordAll (warnings.map fun line => ⟨.warning, .generation, "  ⚠ " ++ line⟩)
    step "Validate" true
      (if warnings.isEmpty then "all checks passed" else ofNat warnings.length ++ " warning(s)")
    return true
  else
    step "Validate" false (ofNat errors.length ++ " error(s)")
    Task.recordAll (errors.map fun line => ⟨.error, .generation, "  ✗ " ++ line⟩)
    enter .failed
    return false

/-- The source of the entity; a new one if it is not there. -/
def sourceOf (g : Generator) (p : Plan) : Task Run Text := do
  match ← g.store.read? p.name with
  | some source => return source
  | none =>
    note fun r => { r with created := true }
    let source ← newEntity g.config p.name none
    Task.record .info .generation
      ("Entity " ++ p.name ++ " does not exist, starting from a stub.")
    return source

/-- Opens the class of the entity. -/
def load (g : Generator) (p : Plan) : Task Run ClassFile := do
  enter .load
  let f ← Task.timed ("load " ++ p.name) do
    let source ← g.sourceOf p
    openClass source (g.store.pathFor p.name)
  step (if (← get).report.created then "Create Stub" else "Load") true
    (ofNat f.properties.length ++ " properties, " ++ ofNat f.methods.length ++ " methods")
  return f

/-- Resolves a relation of the plan and puts its inverse side on the backlog. -/
def collectRelation (c : Config) (self : Text) (r : Relation) : Task Run Relation := do
  match r.resolve self with
  | .error e => throw (.refused e)
  | .ok resolved =>
    Task.recordAll [resolved.resolvedRecord self]
    match ← Task.settle (resolved.inverseSide self c) with
    | none => pure ()
    | some side =>
      modify fun run => { run with backlog := run.backlog ++ [side] }
      Task.recordAll [Backlog.queuedRecord side]
    return resolved

/-- Resolves the relations of the plan. -/
def collect (g : Generator) (p : Plan) (f : ClassFile) : Task Run (List Relation) := do
  enter .collect
  let relations ← Task.timed ("collect " ++ p.name) do
    let replaced := (existingMembers p f.fields f.relations).warnings.map (·.line)
    note fun r => { r with validationWarnings := r.validationWarnings ++ replaced }
    p.relations.mapM (collectRelation g.config p.name)
  step "Collect Specs" true (ofNat relations.length ++ " relation(s), " ++
    ofNat (← get).backlog.length ++ " inverse side(s) queued")
  return relations

/-- The edits that bring fields and resolved relations into a class. -/
def edits (indent : Text) (fields : List Field) (relations : List Relation) : List (Edit Unit) :=
  (fields.map fun f => Edit.addField indent f.name f.type (some f.type.phpType) f.nullable) ++
    relations.map fun r => Edit.addRelation indent r none

/-- Brings the fields and the resolved relations into the class. -/
def mutate (g : Generator) (p : Plan) (relations : List Relation) (f : ClassFile) :
    Task Run ClassFile := do
  enter .mutate
  let f ← Task.timed ("mutate " ++ p.name)
    (editClassAll f (edits g.config.indent p.fields relations))
  step "Mutate" true (ofNat p.fields.length ++ " field(s), " ++ ofNat relations.length ++
    " relation(s)")
  return f

/-- Saves the class, and a repository for a new one. -/
def save (g : Generator) (p : Plan) (f : ClassFile) : Task Run Unit := do
  enter .save
  Task.timed ("save " ++ p.name) do
    let _ ← stored (g.store.write p.name f.serialize)
    if (← get).report.created && g.config.generateRepository then
      let _ ← stored (g.store.writeRepository p.name (Render.repositoryStub g.config p.name))
  step "Save" true (g.store.pathFor p.name).text

/-- Brings the plan into the file of its entity. -/
def primary (g : Generator) (p : Plan) : Task Run Unit :=
  g.store.withLock p.name do
    let f ← g.load p
    let relations ← g.collect p f
    let f ← g.mutate p relations f
    g.save p f

/-- Puts a failure where the report has its kind. -/
def blame (e : Failure) (r : Report) : Report :=
  match e with
  | .refused _ => { r with validationErrors := r.validationErrors ++ [e.message] }
  | .os _ =>
    if r.phase = .save then
      { r with exportErrors :=
          r.exportErrors ++ ["Could not save " ++ r.entity ++ ": " ++ e.message] }
    else { r with generationErrors := r.generationErrors ++ [e.message] }
  | _ => { r with generationErrors := r.generationErrors ++ [e.message] }

/-- Ends a run because of a failure. -/
def fail (e : Failure) : Task Run Unit := do
  note (blame e)
  let r := (← get).report
  Task.record .error .generation
    (r.entity ++ " failed during " ++ r.phase.name ++ ": " ++ e.message)
  step r.phase.name false e.message
  enter .failed

/-- Brings the plan into the file of its entity and tells whether that went well. -/
def settlePrimary (g : Generator) (p : Plan) : Task Run Bool := do
  note fun r => { r with entityPath := (g.store.pathFor p.name).text }
  match ← Task.attempt (g.primary p) with
  | .ok () => return true
  | .error e =>
    if e.isContained then
      fail e
      return false
    else throw e

/-- Performs a task of the backlog within a run. -/
def queued {α : Type} (t : Task Backlog.Pending α) : Task Run α :=
  Task.onPart (fun r => ⟨r.backlog, r.written⟩)
    (fun p r => { r with backlog := p.backlog, written := p.written }) t

/-- Writes the inverse sides. -/
def drain (g : Generator) : Task Run Unit := do
  enter .drain
  if !(← get).backlog.isEmpty then
    let outcomes ← Task.timed "drain inverse queue" (queued (Backlog.workOff g.store))
    let complaints := outcomes.filterMap (·.complaint?)
    note fun r => { r with
      outcomes := r.outcomes ++ outcomes
      exportErrors := r.exportErrors ++ complaints }
    step "Drain Inverse Queue" complaints.isEmpty (ofNat outcomes.length ++ " target(s), " ++
      ofNat complaints.length ++ " failed")
  enter .done

/-- A run, all but its report's end. -/
def run (g : Generator) (p : Plan) : Task Run Unit := do
  if ← g.checkPlan p then
    if ← g.settlePrimary p then
      g.drain

/-- Carries out a plan. -/
def generate (g : Generator) (p : Plan) : Task Written Report := do
  let before := (← get).length
  let ((), run) ← Task.within
    (fun written => { written, report := { entity := p.name, dryRun := g.config.dryRun } })
    Run.written (g.run p)
  let report := { run.report with writtenFiles := (run.written.drop before).map Path.text }
  if report.success then
    Task.record .info .generation (p.name ++ " generated in 0.000s.")
  return report

/-- Carries out plans one after another; one that fails does not stop the rest. -/
def generateAll (g : Generator) (ps : List Plan) : Task Written (List Report) :=
  ps.mapM g.generate

end Generator

end EntityScaffold.Generation
