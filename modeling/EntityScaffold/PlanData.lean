import EntityScaffold.Failure
import EntityScaffold.Log
import EntityScaffold.Schema.Models

/-!
# Plans from data

The data of a plan file: a list of plans under `entities`, or one plan under `entity`, and
perhaps a configuration under `config`.
-/

set_option autoImplicit false

namespace EntityScaffold.PlanData

/-- The data of the plans. -/
def entities (es : Entries Value) : Except PlanError (List Value) :=
  match Value.find? es "entities" with
  | some (.list vs) => .ok vs
  | some _ => .error .entitiesNotAList
  | none =>
    match Value.find? es "entity" with
    | some v => .ok [v]
    | none => .error .noEntities

/-- The data of the configuration; none if there is nothing under its key. -/
def config? (es : Entries Value) : Option Value :=
  match Value.find? es "config" with
  | none | some .null => none
  | some v => some v

/-- The failure for data that are rejected, told as part of a plan file's. -/
def inPlan (wrap : Schema.Rejection → PlanError) : Failure → Failure
  | .rejected r => .plan (wrap r)
  | e => e

/-- Reads the plans one after another, up to the first that is rejected. -/
def plans (vs : List Value) : Except Failure (List Plan) :=
  vs.mapM fun v => (Schema.settle "EntityPlan" (Schema.checkPlan v)).mapError (inPlan .plans)

/-- Reads the plans and the configuration. -/
def read (es : Entries Value) : Except Failure (List Plan × Config) := do
  let vs ← (entities es).mapError .plan
  let ps ← plans vs
  let c ← (Schema.settle "GenerationConfig"
    (Schema.checkConfig ((config? es).getD (.map [])))).mapError (inPlan .config)
  return (ps, c)

/-- The records of reading: a remark if there is no configuration. -/
def log (es : Entries Value) : List Log.Record :=
  match entities es, config? es with
  | .ok _, none =>
    [⟨.info, .generation, "No generation config found in input, using defaults."⟩]
  | _, _ => []

end EntityScaffold.PlanData
