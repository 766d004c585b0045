import EntityScaffold.FieldType
import EntityScaffold.RelationKind

/-!
# Refusals

Requests that are refused because of what they ask for: names that are none, unknown types and
kinds, and sides of a relation that cannot own it.
-/

set_option autoImplicit false

namespace EntityScaffold

open Text

/-- Why a request is refused. -/
inductive Refusal where
  | unknownFieldType (value : Text)
  | unknownRelationKind (value : Text)
  | invalidFieldName (name : Text)
  | invalidTargetName (name : Text)
  | invalidPropertyName (name : Option Text)
  /-- A side is said to own the relation, or not to, and its kind says the opposite. -/
  | ownership (kind : RelationKind)
  | unresolved
  deriving DecidableEq, Repr

namespace Refusal

def code : Refusal → Text
  | .unknownFieldType _ => "UNKNOWN_FIELD_TYPE"
  | .unknownRelationKind _ => "UNKNOWN_RELATION_KIND"
  | .invalidFieldName _ => "INVALID_FIELD_NAME"
  | .invalidTargetName _ => "INVALID_TARGET_NAME"
  | .invalidPropertyName _ => "INVALID_PROPERTY_NAME"
  | .ownership _ => "OWNERSHIP_CONTRADICTION"
  | .unresolved => "UNRESOLVED_RELATION"

def message : Refusal → Text
  | .unknownFieldType value =>
    "Unknown field type '" ++ value ++ "'. Supported types: " ++
      joinWith ", " (FieldType.all.map (·.name)) ++ "."
  | .unknownRelationKind value =>
    "Unknown relation kind '" ++ value ++ "'. Expected one of: " ++
      joinWith ", " (RelationKind.all.map (·.keyword)) ++ "."
  | .invalidFieldName name => "Invalid field name '" ++ name ++ "'."
  | .invalidTargetName name => "Invalid target class name '" ++ name ++ "'."
  | .invalidPropertyName name => "Invalid relation property name '" ++ name.getD "None" ++ "'."
  | .ownership .manyToOne => "A manyToOne relation is always the owning side."
  | .ownership kind => "A " ++ kind.keyword ++ " relation is always the inverse side."
  | .unresolved => "Relation must be resolved before building its inverse."

/-- What a refusal is about, by name. -/
def details : Refusal → List (Text × Option Text)
  | .unknownFieldType value => [("type", some value)]
  | .unknownRelationKind value => [("kind", some value)]
  | .invalidFieldName name => [("field", some name)]
  | .invalidTargetName name => [("target", some name)]
  | .invalidPropertyName name => [("property", name)]
  | .ownership kind => [("kind", some kind.keyword)]
  | .unresolved => []

end Refusal

end EntityScaffold
