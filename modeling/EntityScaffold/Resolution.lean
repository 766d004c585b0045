import EntityScaffold.Config
import EntityScaffold.Failure
import EntityScaffold.Inflection
import EntityScaffold.Log
import EntityScaffold.Relation

/-!
# Resolving relations

Defaults of a relation that a plan leaves open, and the inverse side that belongs to a resolved
relation.

* `ownership` — which side owns: a many-to-one side always, a one-to-many side never, any other
  side unless it is asked not to.
* `resolve` — the relation with its names, its owner and its join table.
* `inverseSide` — the side to declare on the target.
-/

set_option autoImplicit false

namespace EntityScaffold

open Text

/-- The name of a property that holds the target: its short name with a small first letter, in
the plural for a collection. -/
def suggestProperty (target : Text) (kind : RelationKind) : Text :=
  let base := lowerFirst (shortName target)
  if kind.isCollection then Inflection.pluralize base else base

/-- The join table of a side.  Both sides get the same table with the columns swapped. -/
def defaultJoinTable (self target : Text) : JoinTable :=
  let own := snakeCase (shortName self)
  let other := snakeCase (shortName target)
  { name := joinWith ['_'] (Text.sort [own, other])
    joinColumn := own ++ "_id"
    inverseColumn := other ++ "_id" }

/-- Whether a side of a kind owns the relation, given what has been asked for. -/
def ownership (kind : RelationKind) (owning : Option Bool) : Except Refusal Bool :=
  match kind with
  | .manyToOne => if owning = some false then .error (.ownership kind) else .ok true
  | .oneToMany => if owning = some true then .error (.ownership kind) else .ok false
  | .oneToOne | .manyToMany => .ok (owning != some false)

/-- A text that is there and not empty. -/
def given? : Option Text → Option Text
  | none | some [] => none
  | some t => some t

namespace Relation

/-- The name of the property: the given one, or else the suggested one. -/
def propertyOrSuggested (r : Relation) : Text :=
  (given? r.property).getD (suggestProperty r.targetName r.kind)

/-- The relation of the entity `self` with every default filled in. -/
def resolve (r : Relation) (self : Text) : Except Refusal Relation := do
  let owns ← ownership r.kind r.owning
  return { r with
    property := some r.propertyOrSuggested
    isOwningSide := owns
    otherProperty :=
      if r.wantsInverse && (given? r.otherProperty).isNone then
        some (suggestProperty self r.kind.inverse)
      else r.otherProperty
    joinTable :=
      if r.kind = .manyToMany && owns then
        some (r.joinTable.getD (defaultJoinTable self r.targetName))
      else none
    nullable := r.nullable && !r.kind.isCollection }

/-- The record of a relation resolved. -/
def resolvedRecord (r : Relation) (self : Text) : Log.Record :=
  ⟨.debug, .relations, "Resolved " ++ self ++ "." ++ r.property.getD [] ++ ": " ++
    r.kind.keyword ++ " -> " ++ r.targetName ++ " (" ++ sideWord r.isOwningSide ++ ")."⟩

/-- The faults of an inverse side without the names it needs. -/
def namelessFaults (entity backReference : Text) : List Schema.Fault :=
  (if entity = [] then [⟨.emptyText, [.name "target_entity_fqn"]⟩] else []) ++
  (if backReference = [] then [⟨.emptyText, [.name "back_reference_fqn"]⟩] else [])

/-- The side to declare on the target of a resolved relation of the entity `self`; none if it has
not been asked for. -/
def inverseSide (r : Relation) (self : Text) (c : Config) :
    Except Failure (Option InverseSide) :=
  if !r.wantsInverse then .ok none
  else match given? r.property, given? r.otherProperty with
  | some property, some other =>
    let entity := c.entityClass r.target
    let backReference := c.entityClass self
    let owning := !r.isOwningSide
    match namelessFaults entity backReference with
    | [] => .ok (some {
        entity := entity
        property := other
        kind := r.kind.inverse
        backReference := backReference
        otherProperty := some property
        owning := owning
        joinTable :=
          if r.kind.inverse = .manyToMany && owning then some (defaultJoinTable r.targetName self)
          else none
        isInverseOneToOne := r.kind.inverse = .oneToOne && !owning })
    | faults => .error (.rejected ⟨"InverseQueueEntry", faults⟩)
  | _, _ => .error (.refused .unresolved)

end Relation

end EntityScaffold
