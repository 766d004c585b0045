import EntityScaffold.Editing

/-!
# Fields and relations on the command line

`NAME:TYPE[:nullable]` asks for a field and `PROP:KIND:TARGET[:OTHER]` for a relation.  The
fourth part of a relation asks for its inverse side; a star or nothing there leaves its name to
be suggested.
-/

set_option autoImplicit false

namespace EntityScaffold.Cli

open Text

/-- The field that a text asks for. -/
def fieldOf (t : Text) : Except Failure Field :=
  match splitAt ':' t with
  | name :: type :: more =>
    if name = [] || 1 < more.length then .error (.argument (.field t))
    else if more != [] && more != ["nullable".toList] then .error (.argument (.fieldSuffix t))
    else do
      let type ← Edit.requireFieldType (.text type)
      return ⟨name, type, more != []⟩
  | _ => .error (.argument (.field t))

/-- The kind of relation of a keyword. -/
def requireKind (v : Value) : Except Failure RelationKind :=
  match (match v with
    | .text t => RelationKind.ofKeyword? t
    | _ => none) with
  | some kind => .ok kind
  | none => .error (.refused (.unknownRelationKind v.message))

/-- The relation that a text asks for.  The properties of `inverseSides` do not own their
relations. -/
def relationOf (t : Text) (inverseSides : List Text) : Except Failure Relation :=
  match splitAt ':' t with
  | property :: keyword :: target :: more =>
    if target = [] || 1 < more.length then .error (.argument (.relation t))
    else do
      let kind ← requireKind (.text keyword)
      return {
        property := given? (some property)
        kind := kind
        target := target
        owning := if property != [] && inverseSides.contains property then some false else none
        otherProperty := given? (more.head?.filter (· != ['*']))
        wantsInverse := more != [] }
  | _ => .error (.argument (.relation t))

end EntityScaffold.Cli
