import EntityScaffold.FieldType
import EntityScaffold.RelationKind
import EntityScaffold.Naming

/-!
# Fields and relations

What a plan asks for: scalar fields, and relations with their join tables; and the inverse side
that a relation calls for on its target.
-/

set_option autoImplicit false

namespace EntityScaffold

open Text

/-- A scalar field. -/
structure Field where
  name : Text
  type : FieldType
  nullable : Bool := false
  deriving DecidableEq, Repr

/-- The table that holds the pairs of a many-to-many relation. -/
structure JoinTable where
  name : Text
  /-- The column that points to the owning side. -/
  joinColumn : Text
  /-- The column that points to the other side. -/
  inverseColumn : Text
  deriving DecidableEq, Repr

/-- One side of a relation. -/
structure Relation where
  /-- The name of the property; suggested from the target if there is none. -/
  property : Option Text := none
  kind : RelationKind
  /-- The target, with or without its namespace. -/
  target : Text
  /-- Whether this side shall own the relation, if that has been asked for. -/
  owning : Option Bool := none
  /-- Whether this side owns the relation. -/
  isOwningSide : Bool := true
  /-- The property of the target that is the other side. -/
  otherProperty : Option Text := none
  /-- Whether the other side shall be declared too. -/
  wantsInverse : Bool := false
  joinTable : Option JoinTable := none
  nullable : Bool := false
  deriving DecidableEq, Repr

/-- The side of a relation to be declared on the target of the side that called for it. -/
structure InverseSide where
  /-- The entity that gets the property. -/
  entity : Text
  property : Text
  kind : RelationKind
  /-- The entity that called for this side. -/
  backReference : Text
  otherProperty : Option Text := none
  owning : Bool := false
  joinTable : Option JoinTable := none
  isInverseOneToOne : Bool := false
  nullable : Bool := false
  deriving DecidableEq, Repr

/-- The target's name without its namespace. -/
def Relation.targetName (r : Relation) : Text := shortName r.target

def InverseSide.entityName (s : InverseSide) : Text := shortName s.entity

def InverseSide.backReferenceName (s : InverseSide) : Text := shortName s.backReference

/-- The relation that an inverse side declares.  A collection is not nullable. -/
def InverseSide.toRelation (s : InverseSide) : Relation where
  property := some s.property
  kind := s.kind
  target := s.backReference
  owning := some s.owning
  isOwningSide := s.owning
  otherProperty := s.otherProperty
  joinTable := if s.owning then s.joinTable else none
  nullable := s.nullable && !s.kind.isCollection

def Field.describe (f : Field) : Text :=
  "<FieldSpec " ++ f.name ++ ": " ++ f.type.name ++ (if f.nullable then "?" else "") ++ ">"

def JoinTable.describe (j : JoinTable) : Text :=
  "<JoinTable " ++ j.name ++ "(" ++ j.joinColumn ++ ", " ++ j.inverseColumn ++ ")>"

/-- The word for a side of a relation. -/
def sideWord (isOwning : Bool) : Text := if isOwning then "owning" else "inverse"

def Relation.describe (r : Relation) : Text :=
  "<RelationSpec " ++ r.property.getD "None" ++ ": " ++ r.kind.keyword ++ " → " ++ r.target ++
    " (" ++ sideWord r.isOwningSide ++ ")>"

def InverseSide.describe (s : InverseSide) : Text :=
  "<InverseQueueEntry " ++ s.entityName ++ "." ++ s.property ++ ": " ++ s.kind.keyword ++ ">"

end EntityScaffold
