import EntityScaffold.Text.Word
import EntityScaffold.Text.Case

/-!
# Kinds of relations

The four cardinalities of a relation, their keywords and attributes, and the kind of the other
side.  A keyword may be spelt in any letter case and with separators.
-/

set_option autoImplicit false

namespace EntityScaffold

open Text

/-- The cardinality of a relation, seen from one side. -/
inductive RelationKind where
  | oneToOne
  | oneToMany
  | manyToOne
  | manyToMany
  deriving DecidableEq, Repr

namespace RelationKind

def all : List RelationKind := [.oneToOne, .oneToMany, .manyToOne, .manyToMany]

/-- The keyword of a kind. -/
def keyword : RelationKind → Text
  | .oneToOne => "oneToOne"
  | .oneToMany => "oneToMany"
  | .manyToOne => "manyToOne"
  | .manyToMany => "manyToMany"

/-- The attribute that declares a relation of this kind. -/
def attributeClass : RelationKind → Text
  | .oneToOne => "OneToOne"
  | .oneToMany => "OneToMany"
  | .manyToOne => "ManyToOne"
  | .manyToMany => "ManyToMany"

/-- Whether a property of this kind holds many targets. -/
def isCollection : RelationKind → Bool
  | .oneToMany | .manyToMany => true
  | .oneToOne | .manyToOne => false

/-- The kind of the other side. -/
def inverse : RelationKind → RelationKind
  | .oneToOne => .oneToOne
  | .oneToMany => .manyToOne
  | .manyToOne => .oneToMany
  | .manyToMany => .manyToMany

theorem inverse_inverse (k : RelationKind) : k.inverse.inverse = k := by cases k <;> rfl

theorem mem_all (k : RelationKind) : k ∈ all := by cases k <;> decide

/-- The letters of a keyword in lower case, everything else left out. -/
def spelling (t : Text) : Text := (t.filter isAsciiLetter).map asciiLower

/-- The kind with this keyword, in any spelling: `OneToMany`, `one_to_many`, `ONE-TO-MANY`. -/
def ofKeyword? (t : Text) : Option RelationKind :=
  all.find? fun k => spelling k.keyword = spelling t

theorem ofKeyword?_keyword (k : RelationKind) : ofKeyword? k.keyword = some k := by
  cases k <;> decide

/-- The kind with exactly this keyword. -/
def ofExactKeyword? (t : Text) : Option RelationKind := all.find? fun k => k.keyword = t

/-- What to know about the sides of a relation of this kind. -/
def help : RelationKind → List Text
  | .oneToMany => [
      "Collection side (OneToMany) is the inverse side and uses mappedBy.",
      "The owning side is ManyToOne on the target entity; it uses inversedBy and carries the foreign key."]
  | .manyToOne => [
      "This side is the owning side; it uses inversedBy and holds the foreign key.",
      "The inverse side on the other entity is a OneToMany collection using mappedBy."]
  | .oneToOne => [
      "Only one side owns the relation and stores the foreign key.",
      "Owning side uses inversedBy, inverse side uses mappedBy.",
      "The invoking side owns the relation unless marked as inverse."]
  | .manyToMany => [
      "One side owns the relation and declares the join table.",
      "The invoking side owns it unless marked as inverse.",
      "Both sides are collections; rows live in the join table."]

end RelationKind

end EntityScaffold
