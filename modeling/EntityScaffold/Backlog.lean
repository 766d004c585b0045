import EntityScaffold.Storage.Classes

/-!
# The backlog of inverse sides

A run collects the inverse sides that its relations call for and writes them when the entity
itself has been saved.  Each target is a piece of work by itself: what goes wrong with one of them
is kept in its outcome, and the others go on.

* `Backlog.byTarget` — the sides of each target, targets and sides in the order of their coming.
* `Backlog.drain` — writes all sides and gives one outcome for each target.
* `Backlog.workOff` — the same as a step of a backlog, which is empty then.
-/

set_option autoImplicit false

namespace EntityScaffold

open Text Storage

/-- What became of the inverse sides of one target. -/
structure Outcome where
  target : Text
  /-- The properties declared before anything went wrong. -/
  properties : List Text := []
  path : Option Path := none
  /-- Whether the target was not there before. -/
  created : Bool := false
  failure : Option Failure := none
  deriving DecidableEq, Repr

namespace Outcome

def succeeded (o : Outcome) : Bool := o.failure.isNone

/-- The wording of a failure to write the inverse sides of a target. -/
def complaint (target : Text) (e : Failure) : Text :=
  "Could not patch inverse side in '" ++ target ++ "': " ++ e.message

/-- What went wrong, if anything did. -/
def complaint? (o : Outcome) : Option Text := o.failure.map (complaint o.target)

/-- An outcome on one line. -/
def line (o : Outcome) : Text :=
  match o.complaint? with
  | some complaint => "✗ " ++ o.target ++ ": " ++ complaint
  | none => "✓ " ++ o.target ++ " " ++ (if o.created then ("created" : Text) else "updated") ++
      " (" ++ joinWith ", " (o.properties.map ('$' :: ·)) ++ ")"

end Outcome

/-- Whether a failure is that of the piece of work it arises in, and no more. -/
def Failure.isContained : Failure → Bool
  | .refused _ | .unparsable _ | .locked .. => true
  | .os e => e.cause ≠ .nulInPath
  | _ => false

/-- The inverse sides that are still to be written. -/
abbrev Backlog := List InverseSide

namespace Backlog

/-- The record of an inverse side put on the backlog. -/
def queuedRecord (s : InverseSide) : Log.Record :=
  ⟨.debug, .inverseSides, "Queued inverse " ++ s.describe⟩

/-- The targets, each once. -/
def targets (b : Backlog) : List Text := distinct (b.map (·.entity))

/-- The sides of each target. -/
def byTarget (b : Backlog) : List (Text × List InverseSide) :=
  b.targets.map fun target => (target, b.filter (·.entity = target))

/-- A target being worked on. -/
structure Patch where
  written : Written
  outcome : Outcome

/-- The source of a target; a new one if it is not there. -/
def sourceOf (store : Store) (target : Text) : Task Patch Text := do
  match ← store.read? target with
  | some source => return source
  | none =>
    let source ← newEntity store.config (shortName target) (namespaceOf? target)
    modify fun p => { p with outcome := { p.outcome with created := true } }
    Task.record .info .inverseSides ("Creating inverse-side entity " ++ shortName target)
    return source

/-- Declares one side in the class of its target. -/
def declare (indent : Text) (f : Source.ClassFile) (s : InverseSide) :
    Task Patch Source.ClassFile := do
  let f ← editClass f (Edit.addRelation indent s.toRelation (some s.backReferenceName))
  modify fun p =>
    { p with outcome := { p.outcome with properties := p.outcome.properties ++ [s.property] } }
  return f

/-- Declares the sides in the file of their target. -/
def patch (store : Store) (target : Text) (sides : List InverseSide) : Task Patch Unit :=
  store.withLock target do
    let source ← sourceOf store target
    let f ← openClass source (store.pathFor target)
    let f ← sides.foldlM (declare store.config.indent) f
    let path ← Task.onPart Patch.written (fun w p => { p with written := w })
      (store.write target f.serialize)
    modify fun p => { p with outcome := { p.outcome with path := some path } }

/-- Declares the sides of a target, and keeps a failure in the outcome. -/
def settleTarget (store : Store) (target : Text) (sides : List InverseSide) :
    Task Patch Unit := do
  match ← Task.attempt (patch store target sides) with
  | .ok () => return
  | .error e =>
    if e.isContained then
      modify fun p => { p with outcome := { p.outcome with failure := some e } }
      Task.record .error .inverseSides (Outcome.complaint target e)
    else throw e

/-- Works on one target. -/
def drainTarget (store : Store) (work : Text × List InverseSide) : Task Written Outcome := do
  let (target, sides) := work
  let ((), patch) ← Task.within (fun w => ⟨w, { target := target }⟩) Patch.written
    (Task.timed ("drain " ++ target) (settleTarget store target sides))
  return patch.outcome

/-- Works on all targets. -/
def drain (store : Store) (b : Backlog) : Task Written (List Outcome) := do
  let outcomes ← b.byTarget.mapM (drainTarget store)
  Task.record .info .inverseSides ("Inverse queue drained: " ++ ofNat outcomes.length ++
    " target(s), " ++ ofNat (outcomes.filter (!·.succeeded)).length ++ " failed.")
  return outcomes

/-- A backlog being worked off, beside what has been written. -/
structure Pending where
  backlog : Backlog
  written : Written

/-- Takes all sides off the backlog and works on all targets. -/
def workOff (store : Store) : Task Pending (List Outcome) := do
  let b := (← get).backlog
  modify fun p => { p with backlog := [] }
  Task.onPart Pending.written (fun w p => { p with written := w }) (drain store b)

end Backlog

end EntityScaffold
