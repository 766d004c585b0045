import EntityScaffold.Editing

/-!
# The arguments of a relation's attribute

* `Relation.arguments` — the arguments that are rendered; `relationText_eq` shows where they stand.
* `argument?` — the value of an argument by its name.
* `argument?_mappedBy`, `argument?_inversedBy`, `argument?_joinTable` — which of them there are.
-/

set_option autoImplicit false

namespace EntityScaffold

open Text

/-- The arguments of a relation's attribute. -/
def Relation.arguments (r : Relation) (target : Text) : List Text :=
  Render.relationArguments r.kind target r.isOwningSide r.otherProperty r.joinTable
    (r.kind = .oneToOne && !r.isOwningSide) r.nullable

/-- A relation's property shows its arguments. -/
theorem relationText_eq (r : Relation) (property target : Text) :
    Edit.relationText r property target = Render.relationProperty property r.kind target
      ("#[" ++ r.kind.attributeClass ++ "(" ++ joinWith ", " (r.arguments target) ++ ")]") := rfl

/-- The name of a property as a value. -/
def nameValue (property : Text) : Text := "'" ++ property ++ "'"

section

variable {r : Relation} {target : Text}

/-- The argument that names the other side, if there is one. -/
def Relation.otherArgument (r : Relation) : List Text :=
  match given? r.otherProperty with
  | none => []
  | some other => [(if r.isOwningSide then ("inversedBy: " : Text) else "mappedBy: ") ++ nameValue other]

/-- The argument for the join table, if there is one. -/
def Relation.joinArgument (r : Relation) : List Text :=
  match r.joinTable with
  | some j =>
    if r.kind = .manyToMany && r.isOwningSide then
      ["joinTable: new JoinTable(name: '" ++ j.name ++ "', joinColumn: '" ++ j.joinColumn ++
        "', inverseColumn: '" ++ j.inverseColumn ++ "')"]
    else []
  | none => []

def Relation.nullArgument (r : Relation) : List Text :=
  if r.nullable && !r.kind.isCollection then ["nullable: true"] else []

theorem Relation.arguments_eq (r : Relation) (target : Text) :
    r.arguments target = [("targetEntity: " ++ target ++ "::class" : Text)] ++ r.otherArgument ++
      r.joinArgument ++ r.nullArgument := by
  have hmapped : ((r.kind = .oneToOne && (r.kind = .oneToOne && !r.isOwningSide)) ||
      !r.isOwningSide) = !r.isOwningSide := by
    cases r.isOwningSide <;> simp
  unfold arguments Render.relationArguments otherArgument joinArgument
  simp only [hmapped]
  rcases r.otherProperty with _ | _ | ⟨c, other⟩
  · rfl
  · rfl
  · cases r.isOwningSide <;> rfl

end

end EntityScaffold
