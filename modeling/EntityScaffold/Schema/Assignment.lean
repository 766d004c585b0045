import EntityScaffold.Failure
import EntityScaffold.Schema.Models

/-!
# Assigning to checked data

A checked value may be changed one attribute at a time.  The new value passes the same check as
when the attribute is read; what fails leaves the value as it was.  The value is put right by the
rules for its kind of data before the attribute changes, not after.
-/

set_option autoImplicit false

namespace EntityScaffold.Schema

open Text

/-- The attributes of a kind of data. -/
structure Setters (α : Type) where
  /-- Those that can be assigned to: the name, and the change for a value. -/
  assignable : List (Text × (Value → Checked (α → α)))
  /-- The names of those that are computed from the others. -/
  computed : List Text := []
  /-- What is put right about a value before an attribute changes. -/
  tidy : α → α := id

/-- The change that gives an attribute a checked value. -/
def setter {α β : Type} (name : Text) (check : Value → Checked β) (set : β → α → α) :
    Text × (Value → Checked (α → α)) :=
  (name, fun v => (check v).map set)

def joinTableSetters : Setters JoinTable where
  assignable := [
    setter "name" checkFilledText fun v j => { j with name := v },
    setter "join_column" checkFilledText fun v j => { j with joinColumn := v },
    setter "inverse_column" checkFilledText fun v j => { j with inverseColumn := v }]

def fieldSetters : Setters Field where
  assignable := [
    setter "name" checkFilledText fun v f => { f with name := v },
    setter "db_type" checkFieldType fun v f => { f with type := v },
    setter "nullable" checkBool fun v f => { f with nullable := v }]
  computed := ["php_type"]

/-- A relation that is not nullable if it is a collection. -/
def tidyRelation (r : Relation) : Relation :=
  if r.kind.isCollection then { r with nullable := false } else r

def relationSetters : Setters Relation where
  assignable := [
    setter "property_name" (checkOptional checkText) fun v r => { r with property := v },
    setter "kind" checkExactKind fun v r => { r with kind := v },
    setter "target" checkFilledText fun v r => { r with target := v },
    setter "owning" (checkOptional checkBool) fun v r => { r with owning := v },
    setter "is_owning_side" checkBool fun v r => { r with isOwningSide := v },
    setter "other_prop" (checkOptional checkText) fun v r => { r with otherProperty := v },
    setter "generate_inverse" checkBool fun v r => { r with wantsInverse := v },
    setter "join_table" (checkOptional checkJoinTable) fun v r => { r with joinTable := v },
    setter "nullable" checkBool fun v r => { r with nullable := v }]
  computed := ["target_short_name", "is_collection"]
  tidy := tidyRelation

def inverseSideSetters : Setters InverseSide where
  assignable := [
    setter "target_entity_fqn" checkFilledText fun v s => { s with entity := v },
    setter "target_property_name" checkFilledText fun v s => { s with property := v },
    setter "inverse_kind" checkExactKind fun v s => { s with kind := v },
    setter "back_reference_fqn" checkFilledText fun v s => { s with backReference := v },
    setter "other_prop" (checkOptional checkText) fun v s => { s with otherProperty := v },
    setter "owning_flag" checkBool fun v s => { s with owning := v },
    setter "join_table" (checkOptional checkJoinTable) fun v s => { s with joinTable := v },
    setter "is_inverse_one_to_one" checkBool fun v s => { s with isInverseOneToOne := v },
    setter "nullable" checkBool fun v s => { s with nullable := v }]
  computed := ["target_short_name", "back_reference_short_name"]

def planSetters : Setters Plan where
  assignable := [
    setter "name" checkFilledText fun v p => { p with name := v },
    setter "fields" (checkList checkField) fun v p => { p with fields := v },
    setter "relations" (checkList checkRelation) fun v p => { p with relations := v }]
  computed := ["is_empty"]

def configSetters : Setters Config where
  assignable := [
    setter "entity_dir" checkPath fun v c => { c with entityDir := v },
    setter "repository_dir" checkPath fun v c => { c with repositoryDir := v },
    setter "entity_namespace" checkNamespace fun v c => { c with entityNamespace := v },
    setter "repository_namespace" checkNamespace fun v c => { c with repositoryNamespace := v },
    setter "attribute_namespace" checkNamespace fun v c => { c with attributeNamespace := v },
    setter "repository_base_class" checkText fun v c => { c with repositoryBaseClass := v },
    setter "generate_repository" checkBool fun v c => { c with generateRepository := v },
    setter "indent_size" (checkBetween 2 8) fun v c => { c with indentSize := v },
    setter "atomic_writes" checkBool fun v c => { c with atomicWrites := v },
    setter "lock_files" checkBool fun v c => { c with lockFiles := v },
    setter "dry_run" checkBool fun v c => { c with dryRun := v }]
  computed := ["indent"]

/-- What every value tells about itself. -/
def described : List Text := ["model_extra", "model_fields_set"]

/-- The value with an attribute assigned, or why it stays as it is.  A name that begins with an
underscore stands beside the data, so nothing changes there. -/
def assign {α : Type} (model : Text) (setters : Setters α) (attribute_ : Text) (v : Value)
    (a : α) : Except Failure α :=
  if startsWith "_" attribute_ then .ok a
  else if (setters.computed ++ described).contains attribute_ then
    .error (.readOnly model attribute_)
  else
    let change := match setters.assignable.lookup attribute_ with
      | some set => set v
      | none => .fail (.noAttribute attribute_)
    match Checked.under (.name attribute_) change with
    | .ok change => .ok (change (setters.tidy a))
    | .error faults => .error (failureOf model faults)

end EntityScaffold.Schema
