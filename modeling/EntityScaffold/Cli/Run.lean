import EntityScaffold.Cli.InlineSpec
import EntityScaffold.Cli.Invocation
import EntityScaffold.PlanFile

/-!
# Carrying out invocations

Each command tells what it did on the standard output and ends with an exit code.

* `Invocation.carryOut` — one invocation.
* `run` — a command line.
-/

set_option autoImplicit false

namespace EntityScaffold.Cli

open Text Storage Generation

variable {σ : Type}

/-- How a run ends. -/
inductive ExitCode where
  | success
  /-- What was asked for is not valid. -/
  | validation
  /-- The entity's own class was not brought about. -/
  | generation
  /-- Not everything was saved. -/
  | export_
  /-- The command line or the plan file is not one. -/
  | input
  deriving DecidableEq, Repr

def ExitCode.number : ExitCode → Nat
  | .success => 0
  | .validation => 1
  | .generation => 2
  | .export_ => 3
  | .input => 4

/-- The exit code for a report. -/
def exitCode (r : Report) : ExitCode :=
  if r.success then .success
  else if !r.validationErrors.isEmpty then .validation
  else if !r.generationErrors.isEmpty then .generation
  else .export_

/-- The greater of two exit codes. -/
def ExitCode.max (a b : ExitCode) : ExitCode := if a.number < b.number then b else a

/-- The configuration of the settings. -/
def configOf (s : Settings) : Except Failure Config :=
  Schema.settle "GenerationConfig" (Schema.checkConfig (.map s.overrides))

/-- Ends with a complaint about the input. -/
def refuse (message : Text) (code : ExitCode) : Task σ ExitCode := do
  Task.record .error .program message
  return code

/-! ## make -/

/-- The plan that a request asks for. -/
def planOf (entity : Text) (fields : List Field) (relations : List Relation) :
    Except Failure Plan :=
  if entity = [] then
    .error (.rejected ⟨"EntityPlan", [⟨.emptyText, [.name "name"]⟩]⟩)
  else .ok ⟨entity, fields, relations⟩

/-- The text of an argument that is to be cut into parts. -/
def partsOf : Argument → Except Failure Text
  | .text t => .ok t
  | .empty => .error (.wordless .parts)

/-- The texts among arguments. -/
def textsOf (as : List Argument) : List Text :=
  as.filterMap fun
    | .text t => some t
    | .empty => none

/-- The fields and relations that a request asks for. -/
def MakeRequest.specs (r : MakeRequest) : Except Failure (List Field × List Relation) := do
  let fields ← r.fields.mapM fun a => do fieldOf (← partsOf a)
  let relations ← r.relations.mapM fun a => do
    relationOf (← partsOf a) (textsOf r.inverseSides)
  return (fields, relations)

/-- The first of these names that none of the known properties has. -/
def strayName? (known : List Text) : List Argument → Except Failure (Option Text)
  | [] => .ok none
  | .empty :: _ => .error (.wordless .name)
  | .text name :: more => if known.contains name then strayName? known more else .ok (some name)

def make (h : Host) (s : Settings) (r : MakeRequest) : Task Written ExitCode := do
  match r.specs with
  | .error (.refused e) => refuse e.message .validation
  | .error (.argument e) => refuse e.message .input
  | .error e => throw e
  | .ok (fields, relations) =>
    let known := relations.filterMap fun r => given? r.property
    match ← Task.settle (strayName? known r.inverseSides) with
    | some name =>
      refuse ("--inverse-side '" ++ name ++ "' does not name a --relation.") .input
    | none =>
      let p ← Task.settle (planOf r.entity fields relations)
      let g ← Generator.start h (← Task.settle (configOf s))
      let report ← g.generate p
      Task.say report.summary
      return exitCode report

/-! ## apply and validate -/

/-- Whether a failure means that a plan file cannot be loaded. -/
def isAboutPlanFile : Failure → Bool
  | .plan (.content e) => e.isAboutValue
  | .plan _ | .undecodable _ | .rejected _ => true
  | .os e => e.cause = .notFound || e.cause = .nulInPath
  | _ => false

/-- The plans and the configuration of a plan file, under the settings. -/
def loadPlans (s : Settings) (file : Text) : Task σ (List Plan × Config) := do
  let contents ← PlanFile.load (.ofText file)
  PlanFile.read (contents.withSettings s.overrides)

/-- Goes on with the plans and the configuration of a plan file, if it can be loaded. -/
def withPlans (s : Settings) (file : Text)
    (next : List Plan → Config → Task Written ExitCode) : Task Written ExitCode := do
  match ← Task.attempt (loadPlans s file) with
  | .ok (plans, c) => next plans c
  | .error e =>
    if isAboutPlanFile e then refuse ("Failed to load plan: " ++ e.message) .input else throw e

def apply_ (h : Host) (s : Settings) (file : Text) : Task Written ExitCode :=
  withPlans s file fun plans c => do
    let g ← Generator.start h c
    let reports ← g.generateAll plans
    reports.forM fun r => Task.say r.summary
    return (reports.map exitCode).foldl ExitCode.max .success

/-- The rule above and below a validation. -/
def rule : Text := List.replicate 50 '='

/-- Validates one plan and tells whether it is valid. -/
def validateOne (g : Generator) (p : Plan) : Task Written Bool := do
  let issues ← g.validate p
  Task.say ("\n  " ++ p.name ++ ":")
  (displayLines (issues.report false)).forM fun line => Task.say ("    " ++ line)
  return issues.isValid

def validate (h : Host) (s : Settings) (file : Text) : Task Written ExitCode :=
  withPlans s file fun plans c => do
    let g ← Generator.start h c
    Task.say ("\n" ++ rule)
    Task.say "  Plan Validation Report"
    Task.say rule
    Task.say ("  File:     " ++ (Path.ofText file).name)
    Task.say ("  Entities: " ++ ofNat plans.length)
    let verdicts ← plans.mapM (validateOne g)
    let valid := verdicts.all id
    if valid then Task.say "\n  ✅ All validations passed!"
    Task.say (rule ++ "\n")
    return if valid then .success else .validation

/-! ## list and types -/

/-- What an entity holds, in a few words. -/
def contents (store : Store) (name : Text) : Task σ Text := do
  let source ← store.read? name
  match ← Task.attempt (openClass (source.getD []) (store.pathFor name)) with
  | .ok f =>
    return ofNat f.fields.length ++ " field(s), " ++ ofNat f.relations.length ++ " relation(s)"
  | .error (.unparsable e) => return "(unparseable: " ++ e.defect.reason ++ ")"
  | .error e => throw e

def listOne (store : Store) (name : Text) : Task σ Unit := do
  Task.say ("  " ++ padEnd 24 name ++ " " ++ (← contents store name))

def list (h : Host) (s : Settings) : Task σ ExitCode := do
  let c ← Task.settle (configOf s)
  let store : Store := { config := c, owner := h.owner }
  let names ← store.entities
  if names.isEmpty then Task.say ("No entities in " ++ c.entityDir.text)
  else names.forM (listOne store)
  return .success

/-- A field type with its native type. -/
def fieldTypeLine (t : FieldType) : Text := "  " ++ padEnd 16 t.name ++ " -> " ++ t.phpType

/-- A kind of relation with its inverse, and what to know about it. -/
def relationKindLines (k : RelationKind) : List Text :=
  ("  " ++ padEnd 12 k.keyword ++ " (inverse: " ++ k.inverse.keyword ++ ")") ::
    k.help.map ("      " ++ ·)

def types : Task σ ExitCode := do
  Task.say "Field types:"
  FieldType.all.forM fun t => Task.say (fieldTypeLine t)
  Task.say "\nRelation kinds:"
  (RelationKind.all.flatMap relationKindLines).forM Task.say
  return .success

/-! ## Invocations -/

/-- Carries out the command. -/
def Invocation.perform (h : Host) (i : Invocation) : Task Written ExitCode :=
  match i.command with
  | .make r => make h i.settings r
  | .apply_ file => apply_ h i.settings file
  | .validate file => validate h i.settings file
  | .list => list h i.settings
  | .types => types

/-- Carries out an invocation, if its settings are a configuration. -/
def Invocation.carryOut (h : Host) (i : Invocation) : Task Written ExitCode := do
  match configOf i.settings with
  | .error (.rejected r) => refuse ("Invalid configuration: " ++ r.headline) .input
  | .error e => throw e
  | .ok c =>
    Task.record .info .program ("Entity dir: " ++ c.entityDir.text)
    let code ← i.perform h
    if code ≠ .success then
      Task.record .error .program ("'" ++ i.command.name ++ "' failed with exit code " ++
        ofNat code.number ++ ".")
    return code

/-- The name and version of the program. -/
def versionText : Text := "EntiGen v1.0.0"

/-- Carries out a command line. -/
def run (h : Host) (words : List Text) : Task Written ExitCode :=
  match Invocation.ofWords words with
  | .ok i => i.carryOut h
  | .error .help => return .success
  | .error .version => do
    Task.say versionText
    return .success
  | .error .misuse => return .input

/-- Where the log of a command line begins. -/
def logLevel (words : List Text) : Log.Level :=
  match Invocation.ofWords words with
  | .ok i => i.settings.logLevel
  | .error _ => .warning

end EntityScaffold.Cli
