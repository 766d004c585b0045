import EntityScaffold.Plan
import EntityScaffold.Resolution
import EntityScaffold.Storage.OsError
import EntityScaffold.Text.CloseMatch
import EntityScaffold.Validation.Issue

/-!
# Validating plans

The rules that a plan has to keep before anything is written, and the warnings that it earns.

* `validatePlan` — all rules for a plan by itself.
* `existingMembers` — what a plan would replace in a class.
* `sharedDirectory` — the warning for a configuration that mixes entities with repositories.
* `suggestEntities` — the known entities that a name may have meant.
-/

set_option autoImplicit false

namespace EntityScaffold.Validation

open Text

/-- The known entities that a name may have meant: the one it is the plural of, then the close
ones. -/
def suggestEntities (name : Text) (known : List Text) (limit : Nat) : List Text :=
  let close := closeMatches name known limit
  let single := Inflection.singularize name
  let found :=
    if single != name && known.contains single then single :: close.filter (· != single)
    else close
  found.take limit

/-- As `suggestEntities`, for a limit that may be too small to ask for. -/
def suggestEntitiesWithin (name : Text) (known : List Text) (limit : Int) :
    Except Failure (List Text) :=
  if limit ≤ 0 then .error (.limit limit) else .ok (suggestEntities name known limit.toNat)

/-- The context of an issue, all texts. -/
def about (pairs : List (Text × Text)) : List (Text × Value) :=
  pairs.map fun (k, v) => (k, .text v)

def entityName (p : Plan) : Issues :=
  if isEntityName p.name then []
  else [⟨.error, "INVALID_ENTITY_NAME", "Entity name '" ++ p.name ++
    "' must be upper-camel alphanumeric (e.g. 'BlogPost') and not a reserved word.",
    about [("entity", p.name)]⟩]

def fieldNames (p : Plan) : Issues :=
  (p.fields.filter fun f => !isIdentifier f.name).map fun f =>
    ⟨.error, "INVALID_FIELD_NAME", "Field name '" ++ f.name ++ "' is not a valid property name.",
      about [("entity", p.name), ("field", f.name)]⟩

/-- The name of the property that the other side of a relation of the plan gets. -/
def otherOrSuggested (p : Plan) (r : Relation) : Text :=
  (given? r.otherProperty).getD (suggestProperty p.name r.kind.inverse)

/-- The issues for properties that are planned again; `seen` are the names planned before. -/
def duplicateProperties (p : Plan) (seen : List Text) : List Text → Issues
  | [] => []
  | name :: more =>
    (if seen.contains name then
      [⟨.error, "DUPLICATE_PROPERTY", "Property '" ++ name ++
        "' is defined more than once for entity '" ++ p.name ++ "'.",
        about [("entity", p.name), ("property", name)]⟩]
    else []) ++ duplicateProperties p (name :: seen) more

/-- The issues for inverse sides that are asked for again.  `seen` are the inverse sides asked
for before, as target and property, with the property that asked for each. -/
def duplicateInverses (p : Plan) (seen : List ((Text × Text) × Text)) : List Relation → Issues
  | [] => []
  | r :: more =>
    if !r.wantsInverse then duplicateInverses p seen more
    else
      let target := r.targetName
      let property := r.propertyOrSuggested
      let other := otherOrSuggested p r
      match seen.lookup (target, other) with
      | some first =>
        ⟨.error, "DUPLICATE_INVERSE_PROPERTY", "Relations '" ++ first ++ "' and '" ++ property ++
          "' both declare '" ++ target ++ "::$" ++ other ++
          "' as their inverse side; set a distinct reciprocal property name.",
          about [("entity", p.name), ("property", property), ("target", target),
            ("other_prop", other)]⟩ :: duplicateInverses p seen more
      | none => duplicateInverses p (((target, other), property) :: seen) more

def duplicates (p : Plan) : Issues :=
  duplicateProperties p [] (p.fields.map (·.name) ++ p.relations.map (·.propertyOrSuggested)) ++
    duplicateInverses p [] p.relations

/-- The issue for a target that is not among the known entities. -/
def unknownTarget (known : List Text) (r : Relation) (context : List (Text × Value)) : Issue :=
  let target := r.targetName
  let suggestions := suggestEntities target known 3
  let hint : Text :=
    if suggestions = [] then [] else " Did you mean: " ++ joinWith ", " suggestions ++ "?"
  if r.wantsInverse then
    ⟨.info, "TARGET_WILL_BE_CREATED", "Target entity '" ++ target ++
      "' does not exist and will be created from a stub." ++ hint, context⟩
  else
    ⟨.warning, "UNKNOWN_TARGET_ENTITY", "Target entity '" ++ target ++ "' does not exist." ++ hint,
      context⟩

/-- The issues of one relation.  Without known entities the target may be any. -/
def relationIssues (p : Plan) (known : Option (List Text)) (r : Relation) : Issues :=
  let target := r.targetName
  let property := r.propertyOrSuggested
  let context := about [("entity", p.name), ("property", property), ("kind", r.kind.keyword),
    ("target", target)]
  (if isIdentifier property then []
    else [⟨.error, "INVALID_PROPERTY_NAME", "Relation property '" ++ property ++
      "' is not a valid property name.", context⟩]) ++
  (if isClassName target then []
    else [⟨.error, "INVALID_TARGET_NAME", "Relation target '" ++ r.target ++
      "' is not a valid class name.", context⟩]) ++
  (match r.otherProperty with
    | some other =>
      if isIdentifier other then []
      else [⟨.error, "INVALID_PROPERTY_NAME", "Reciprocal property '" ++ other ++
        "' is not a valid property name.", context⟩]
    | none => []) ++
  (match ownership r.kind r.owning with
    | .error e => [⟨.error, e.code, e.message, context⟩]
    | .ok _ => []) ++
  (if r.joinTable.isSome && r.kind != .manyToMany then
    [⟨.warning, "JOIN_TABLE_IGNORED", "Join table on '" ++ property ++
      "' is ignored: only manyToMany relations declare one.", context⟩]
    else []) ++
  (if target = p.name && r.wantsInverse && otherOrSuggested p r = property then
    [⟨.error, "SELF_REFERENCE_CONFLICT", "Self-referencing relation '" ++ property ++
      "' cannot be its own inverse; set a different reciprocal property name.", context⟩]
    else []) ++
  (match known with
    | some known =>
      if known.contains target then [] else [unknownTarget known r context]
    | none => [])

/-- The known entities, the plan's own among them, each once. -/
def withOwn (p : Plan) (known : List Text) : List Text := Text.distinct (known ++ [p.name])

def relationsIssues (p : Plan) (known : Option (List Text)) : Issues :=
  p.relations.flatMap (relationIssues p (known.map (withOwn p)))

/-- The issues of a plan.  Without known entities targets may be any. -/
def validatePlan (p : Plan) (known : Option (List Text)) : Issues :=
  entityName p ++ fieldNames p ++ duplicates p ++ relationsIssues p known ++
    (if p.isEmpty then
      [⟨.warning, "EMPTY_PLAN", "Nothing to add to '" ++ p.name ++ "'.",
        about [("entity", p.name)]⟩]
    else [])

/-- The records of a validation. -/
def validationLog (p : Plan) (issues : Issues) : List Log.Record :=
  [⟨.info, .validation, "Validating plan for " ++ p.name ++ " (" ++ ofNat p.fields.length ++
      " field(s), " ++ ofNat p.relations.length ++ " relation(s))."⟩,
    if issues.isValid then
      ⟨.info, .validation, "Validation PASSED for " ++ p.name ++ ". " ++ issues.summary⟩
    else
      ⟨.error, .validation, "Validation FAILED for " ++ p.name ++ " with " ++
        ofNat issues.errors.length ++ " error(s)."⟩]

/-- What the plan would replace among the fields and relations of a class. -/
def existingMembers (p : Plan) (fields relations : List Text) : Issues :=
  let context := fun (property : Text) => about [("entity", p.name), ("property", property)]
  (p.fields.flatMap fun f =>
    if relations.contains f.name then
      [⟨.warning, "REPLACES_RELATION", "Field '" ++ f.name ++ "' replaces an existing relation.",
        context f.name⟩]
    else if fields.contains f.name then
      [⟨.info, "REDEFINES_FIELD", "Field '" ++ f.name ++
        "' already exists and will be regenerated.", context f.name⟩]
    else []) ++
  (p.relations.flatMap fun r =>
    let property := r.propertyOrSuggested
    if fields.contains property then
      [⟨.warning, "REPLACES_FIELD", "Relation '" ++ property ++ "' replaces an existing field.",
        context property⟩]
    else if relations.contains property then
      [⟨.info, "REDEFINES_RELATION", "Relation '" ++ property ++
        "' already exists and will be regenerated.", context property⟩]
    else [])

/-- The warning for entities and repositories in one directory, if both directories lead to a
place at all.  `base` is the directory that relative paths begin at. -/
def sharedDirectory (c : Config) (base : List Text) : Except Storage.OsError Issues :=
  match [c.entityDir, c.repositoryDir].find? (·.hasNul) with
  | some p => .error { cause := .nulInPath, path := p.text }
  | none =>
    .ok (if c.entityDir.collapsed base = c.repositoryDir.collapsed base then
      [⟨.warning, "SHARED_OUTPUT_DIR", "Entity and repository directories are the same; repositories will be listed as entities.",
        about [("dir", c.entityDir.text)]⟩]
    else [])

end EntityScaffold.Validation
