import EntityScaffold.Relation

/-!
# Plans

Everything that one run adds to one entity.
-/

set_option autoImplicit false

namespace EntityScaffold

open Text

/-- The fields and relations to add to an entity. -/
structure Plan where
  name : Text
  fields : List Field := []
  relations : List Relation := []
  deriving DecidableEq, Repr

def Plan.isEmpty (p : Plan) : Bool := p.fields.isEmpty && p.relations.isEmpty

def Plan.describe (p : Plan) : Text :=
  "<EntityPlan " ++ p.name ++ ": " ++ ofNat p.fields.length ++ " field(s), " ++
    ofNat p.relations.length ++ " relation(s)>"

end EntityScaffold
