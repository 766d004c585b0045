import EntityScaffold.Backlog
import EntityScaffold.Validation.Issue

/-!
# Reports

What one run tells about the entity it was for: how far it got, what each step came to, what went
wrong, and which files it wrote.
-/

set_option autoImplicit false

namespace EntityScaffold.Generation

open Text

/-- How far a run has got. -/
inductive Phase where
  | idle
  | load
  | collect
  | mutate
  | save
  | drain
  | done
  | failed
  deriving DecidableEq, Repr

def Phase.name : Phase → Text
  | .idle => "idle"
  | .load => "load_or_create_primary"
  | .collect => "collect_specs"
  | .mutate => "mutate_primary"
  | .save => "save_primary"
  | .drain => "drain_inverse_queue"
  | .done => "done"
  | .failed => "failed"

/-- A step that a run has taken. -/
structure Step where
  name : Text
  success : Bool
  detail : Text
  deriving DecidableEq, Repr

/-- The report of a run. -/
structure Report where
  entity : Text
  dryRun : Bool
  phase : Phase := .idle
  /-- The file of the entity; empty if the run did not get that far. -/
  entityPath : Text := []
  /-- Whether the entity was not there before. -/
  created : Bool := false
  steps : List Step := []
  validationErrors : List Text := []
  validationWarnings : List Text := []
  generationErrors : List Text := []
  exportErrors : List Text := []
  outcomes : List Outcome := []
  writtenFiles : List Text := []
  deriving DecidableEq, Repr

namespace Report

/-- Whether nothing went wrong. -/
def success (r : Report) : Bool :=
  r.validationErrors.isEmpty && r.generationErrors.isEmpty && r.exportErrors.isEmpty

/-- The rule above and below the title. -/
def heavyRule : Text := List.replicate 60 '='

/-- The rule between sections. -/
def lightRule : Text := List.replicate 60 '─'

/-- The sign of what went well, or did not. -/
def sign (success : Bool) : Text := if success then "✓" else "✗"

/-- A step on one line.  There is no clock, so its time is zero. -/
def stepLine (s : Step) : Text :=
  "    " ++ sign s.success ++ " " ++ padEnd 24 s.name ++ "   0.000s  " ++ s.detail

/-- A section of a list, unless the list is empty. -/
def section_ (title : Text) (items : List Text) : List Text :=
  if items.isEmpty then []
  else lightRule :: ("  " ++ title ++ " (" ++ ofNat items.length ++ "):") ::
    items.map ("    " ++ ·)

/-- What stands above the first rule between sections. -/
def head (r : Report) : List Text :=
  [heavyRule, "  EntiGen: " ++ r.entity, heavyRule,
    "  Status:   " ++ (if r.success then ("✅ SUCCESS" : Text) else "❌ FAILED") ++
      (if r.dryRun then ("  (dry run)" : Text) else []),
    "  Phase:    " ++ r.phase.name] ++
  (if r.entityPath.isEmpty then []
    else ["  File:     " ++ r.entityPath ++
      (if r.created then (" (created)" : Text) else " (updated)")]) ++
  ["  Time:     0.000s".toList]

/-- The steps taken. -/
def stepLines (r : Report) : List Text :=
  if r.steps.isEmpty then [] else "  Steps:".toList :: r.steps.map stepLine

/-- The report for people to read. -/
def summary (r : Report) : Text :=
  ofLines (r.head ++ lightRule :: r.stepLines ++
    section_ "Validation Errors" (r.validationErrors.map ("✗ " ++ ·)) ++
    section_ "Validation Warnings" (r.validationWarnings.map ("⚠ " ++ ·)) ++
    section_ "Generation Errors" (r.generationErrors.map ("✗ " ++ ·)) ++
    section_ "Export Errors" (r.exportErrors.map ("✗ " ++ ·)) ++
    section_ "Inverse Sides" (r.outcomes.map (·.line)) ++
    section_ "Files Written" (r.writtenFiles.map ("• " ++ ·)) ++
    [heavyRule])

end Report

end EntityScaffold.Generation
