import EntityScaffold.Schema.Check
import EntityScaffold.Plan

/-!
# Reading fields, relations, plans and configurations

Each kind of data is a map with known keys.  A field may go by two keys; the first of them is
the one that faults name.
-/

set_option autoImplicit false

namespace EntityScaffold.Schema

/-- A key of a map, perhaps with a second spelling. -/
structure Slot where
  key : Text
  other : Text

/-- A key without a second spelling. -/
def slot (key : Text) : Slot := ⟨key, key⟩

/-- The key under which the entries have a slot. -/
def Slot.used (s : Slot) (es : Entries Value) : Text :=
  if (Value.find? es s.key).isSome then s.key else s.other

/-- The value of a slot. -/
def Slot.find? (s : Slot) (es : Entries Value) : Option Value :=
  Value.find? es (s.used es)

variable {α : Type}

/-- The value of a slot that has to be there. -/
def required (es : Entries Value) (s : Slot) (check : Value → Checked α) : Checked α :=
  .under (.name s.key) (match s.find? es with
    | some v => check v
    | none => .fail .missing)

/-- The value of a slot, or else a default. -/
def optional (es : Entries Value) (s : Slot) (default : α) (check : Value → Checked α) :
    Checked α :=
  match s.find? es with
  | some v => .under (.name s.key) (check v)
  | none => pure default

/-- The fault of a key, unless it is a known name. -/
def keyFault? (known : List Text) (key : Atom) : Option Fault :=
  match key with
  | .text t => if known.contains t then none else some ⟨.unknownKey, [.name t]⟩
  | a => some ⟨.invalidKey, [.ofAtom a]⟩

/-- The faults of the keys that belong to no slot. -/
def noOthers (es : Entries Value) (slots : List Slot) : Checked Unit :=
  match es.filterMap fun e => keyFault? (slots.map (·.used es)) e.1 with
  | [] => pure ()
  | faults => .error faults

/-- Reads the entries of a map. -/
def checkMap (model : Text) (check : Entries Value → Checked α) : Value → Checked α
  | .map es => check es
  | _ => .fail (.notAMap model)

def checkJoinTable : Value → Checked JoinTable :=
  checkMap "JoinTable" fun es =>
    JoinTable.mk
      <$> required es (slot "name") checkFilledText
      <*> required es (slot "join_column") checkFilledText
      <*> required es (slot "inverse_column") checkFilledText
      <* noOthers es [slot "name", slot "join_column", slot "inverse_column"]

def typeSlot : Slot := ⟨"type", "db_type"⟩

def checkField : Value → Checked Field :=
  checkMap "FieldSpec" fun es =>
    Field.mk
      <$> required es (slot "name") checkFilledText
      <*> required es typeSlot checkFieldType
      <*> optional es (slot "nullable") false checkBool
      <* noOthers es [slot "name", typeSlot, slot "nullable"]

def propertySlot : Slot := ⟨"property", "property_name"⟩

/-- The entries of a relation; a collection counts as not nullable whatever it says. -/
def relationEntries (es : Entries Value) : Entries Value :=
  match Value.find? es "kind" with
  | some (.text t) =>
    if (RelationKind.ofKeyword? t).any (·.isCollection) then es.put (.text "nullable") (.bool false)
    else es
  | _ => es

def checkRelation : Value → Checked Relation :=
  checkMap "RelationSpec" fun es =>
    let es := relationEntries es
    Relation.mk
      <$> optional es propertySlot none (checkOptional checkText)
      <*> required es (slot "kind") checkKind
      <*> required es (slot "target") checkFilledText
      <*> optional es (slot "owning") none (checkOptional checkBool)
      <*> optional es (slot "is_owning_side") true checkBool
      <*> optional es (slot "other_prop") none (checkOptional checkText)
      <*> optional es (slot "generate_inverse") false checkBool
      <*> optional es (slot "join_table") none (checkOptional checkJoinTable)
      <*> optional es (slot "nullable") false checkBool
      <* noOthers es (propertySlot :: (["kind", "target", "owning", "is_owning_side",
        "other_prop", "generate_inverse", "join_table", "nullable"].map fun k => slot k.toList))

def checkInverseSide : Value → Checked InverseSide :=
  checkMap "InverseQueueEntry" fun es =>
    InverseSide.mk
      <$> required es (slot "target_entity_fqn") checkFilledText
      <*> required es (slot "target_property_name") checkFilledText
      <*> required es (slot "inverse_kind") checkExactKind
      <*> required es (slot "back_reference_fqn") checkFilledText
      <*> optional es (slot "other_prop") none (checkOptional checkText)
      <*> optional es (slot "owning_flag") false checkBool
      <*> optional es (slot "join_table") none (checkOptional checkJoinTable)
      <*> optional es (slot "is_inverse_one_to_one") false checkBool
      <*> optional es (slot "nullable") false checkBool
      <* noOthers es (["target_entity_fqn", "target_property_name", "inverse_kind",
        "back_reference_fqn", "other_prop", "owning_flag", "join_table", "is_inverse_one_to_one",
        "nullable"].map fun k => slot k.toList)

def checkPlan : Value → Checked Plan :=
  checkMap "EntityPlan" fun es =>
    Plan.mk
      <$> required es (slot "name") checkFilledText
      <*> optional es (slot "fields") [] (checkList checkField)
      <*> optional es (slot "relations") [] (checkList checkRelation)
      <* noOthers es [slot "name", slot "fields", slot "relations"]

def checkConfig : Value → Checked Config :=
  checkMap "GenerationConfig" fun es =>
    let base : Config := {}
    Config.mk
      <$> optional es (slot "entity_dir") base.entityDir checkPath
      <*> optional es (slot "repository_dir") base.repositoryDir checkPath
      <*> optional es (slot "entity_namespace") base.entityNamespace checkNamespace
      <*> optional es (slot "repository_namespace") base.repositoryNamespace checkNamespace
      <*> optional es (slot "attribute_namespace") base.attributeNamespace checkNamespace
      <*> optional es (slot "repository_base_class") base.repositoryBaseClass checkText
      <*> optional es (slot "generate_repository") base.generateRepository checkBool
      <*> optional es (slot "indent_size") base.indentSize (checkBetween 2 8)
      <*> optional es (slot "atomic_writes") base.atomicWrites checkBool
      <*> optional es (slot "lock_files") base.lockFiles checkBool
      <*> optional es (slot "dry_run") base.dryRun checkBool
      <* noOthers es (["entity_dir", "repository_dir", "entity_namespace",
        "repository_namespace", "attribute_namespace", "repository_base_class",
        "generate_repository", "indent_size", "atomic_writes", "lock_files", "dry_run"].map
        fun k => slot k.toList)

end EntityScaffold.Schema
