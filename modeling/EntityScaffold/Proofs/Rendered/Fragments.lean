import EntityScaffold.Proofs.Rendered.Definitions
import EntityScaffold.Proofs.Rendered.Stub

/-!
# Rendered fragments are read back whole

Fragments are rendered by putting texts together and read by scanning a mask; neither knows of the
other.  What is rendered for a property is read back as exactly that: the property with its text
and its one attribute, and each accessor as a method, cut around its braces.  The accessors that are
read off the property are those that have been rendered with it.

* `ReadsBack`, `DeclaresMethod` — a fragment is read as that property, or as a method of that name.
* `readsBack_field`, `readsBack_relation` — for scalar fields, and for relations of all kinds.
* `relationArguments_eq` — the flag for the inverse side of one-to-one relations only chooses a side.
* `fragments_readBack` — all of it together.
-/

set_option autoImplicit false

namespace EntityScaffold

open Text Source

/-- The fragment declares one method of that name: its head ends in the brace that opens the body,
its tail is the brace that closes it, and the parts are the whole fragment. -/
def DeclaresMethod (name text : Text) : Prop :=
  ∃ m body, parseMember text = .ok (.method m) ∧ m.name = name ∧ m.head.getLast? = some '\x7b' ∧
    m.body = some body ∧ m.tail = ['\x7d'] ∧ m.head ++ body ++ m.tail = text

/-- The fragment declares one property of that name with one attribute; the accessors rendered with
it declare methods of the given names, and these names are what is read off the property. -/
structure ReadsBack (name attribute_ text : Text) (names accessors : List Text) : Prop where
  property : parseMember text = .ok (.property ⟨name, text, [attribute_]⟩)
  methods : List.Forall₂ DeclaresMethod names accessors
  stale : ∀ f : ClassFile, f.findProperty? name = some ⟨name, text, [attribute_]⟩ →
    (Edit.staleAccessors f name).Perm names

/-! ## Accessors -/

theorem Accessor.declaresMethod {i : Text} (hi : IsIndent i) {a : Accessor} (ha : a.IsPlain) :
    DeclaresMethod a.name (a.text i) := by
  have hread : parseMember (a.method i).text = .ok (.method (a.method i)) :=
    parseMember_of_tidy (Accessor.tidy hi ha)
  have hwhole : (a.method i).text = (a.method i).head ++
      ofLines ([] :: (a.statements.map (i ++ ·) ++ [[]])) ++ (a.method i).tail := rfl
  have hlast : (a.head ++ ['\n', '\x7b']).getLast? = some '\x7b' := by simp
  rw [a.text_eq i] at hread hwhole
  exact ⟨a.method i, _, hread, rfl, hlast, rfl, rfl, hwhole.symm⟩

theorem forall₂_declaresMethod {i : Text} (hi : IsIndent i) {as : List Accessor}
    (has : ∀ a ∈ as, a.IsPlain) :
    List.Forall₂ DeclaresMethod (as.map Accessor.name) (as.map (Accessor.text i)) := by
  induction as with
  | nil => exact .nil
  | cons a as ih =>
    refine .cons (Accessor.declaresMethod hi (has a (by simp))) (ih fun b hb => ?_)
    exact has b (List.mem_cons_of_mem a hb)

/-! ## Properties -/

/-- A property that is tidy and shows its definition is declared with its accessors. -/
theorem readsBack_of_declaredAs {i name attribute_ text : Text} {rows : List Row} {d : Definition}
    (hi : IsIndent i) (htidy : Tidy (.property ⟨name, text, [attribute_]⟩) rows)
    (hd : (⟨name, text, [attribute_]⟩ : Property).DeclaredAs d) :
    ReadsBack name attribute_ text (d.accessorNames name)
      ((d.accessors name).map (Accessor.text i)) where
  property := parseMember_of_tidy htidy
  methods := forall₂_declaresMethod hi hd.isPlain
  stale f hf := by
    rw [Edit.staleAccessors, hf]
    exact hd.perm_accessorNames

section

variable {i property : Text}

/-- **A scalar field is read back.** -/
theorem readsBack_field (hi : IsIndent i) (hproperty : Name property) (type : FieldType)
    (nullable : Bool) :
    ReadsBack property "Field" (Render.fieldProperty property type.name type.phpType nullable)
      [Render.getterName property, Render.setterName property]
      (Render.fieldAccessors i property type.phpType nullable) := by
  have hphp : IsFieldType type.phpType := isFieldType_native (phpType_mem type)
  obtain ⟨rows, htidy⟩ := tidy_fieldProperty hproperty hphp type nullable
  rw [render_fieldAccessors]
  exact readsBack_of_declaredAs hi htidy (declaredAs_fieldProperty hproperty hphp type nullable)

/-- The accessors of a relation as they are rendered. -/
def relationMethods (i : Text) (kind : RelationKind) (property target : Text) : List Text :=
  if kind.isCollection then Render.collectionAccessors i property target
  else Render.referenceAccessors i property target

/-- The names that the accessors of a relation have. -/
def relationMethodNames (kind : RelationKind) (property target : Text) : List Text :=
  if kind.isCollection then
    [Render.addName target, Render.removeName target, Render.getterName property]
  else [Render.getterName property, Render.setterName property, Render.clearName property]

theorem relationMethods_eq (i : Text) (kind : RelationKind) (property target : Text) :
    relationMethods i kind property target =
      ((Definition.ofRelation kind target).accessors property).map (Accessor.text i) := by
  rw [relationMethods, Definition.ofRelation]
  cases kind.isCollection with
  | true => exact render_collectionAccessors i property target
  | false => exact render_referenceAccessors i property target

theorem relationMethodNames_eq (kind : RelationKind) (property target : Text) :
    relationMethodNames kind property target =
      (Definition.ofRelation kind target).accessorNames property := by
  rw [relationMethodNames, Definition.ofRelation]
  cases kind.isCollection <;> rfl

/-- **A relation is read back.** -/
theorem readsBack_relation {r : Relation} {target : Text} (hi : IsIndent i)
    (hproperty : Name property) (htarget : Capital target)
    (hother : ∀ o ∈ r.otherProperty, Plain o) (hjoin : ∀ j ∈ r.joinTable, j.IsPlain) :
    ReadsBack property r.kind.attributeClass (Edit.relationText r property target)
      (relationMethodNames r.kind property target) (relationMethods i r.kind property target) := by
  obtain ⟨rows, htidy⟩ := tidy_relationProperty hproperty htarget hother hjoin
  rw [relationMethodNames_eq, relationMethods_eq]
  exact readsBack_of_declaredAs hi htidy (.relation hproperty htarget hother hjoin)

end

/-- The flag for the inverse side of a one-to-one relation chooses the side that does not own it. -/
theorem relationArguments_eq (kind : RelationKind) (target : Text) (owning : Bool)
    (other : Option Text) (joinTable : Option JoinTable) (inverse nullable : Bool) :
    Render.relationArguments kind target owning other joinTable inverse nullable =
      Relation.arguments
        { kind, target, isOwningSide := owning && !(kind = .oneToOne && inverse)
          otherProperty := other, joinTable, nullable } target := by
  unfold Relation.arguments Render.relationArguments
  rcases other with _ | _ | ⟨c, other⟩ <;> cases kind <;> cases owning <;> cases inverse <;> rfl

/-- **Every rendered fragment is read back as exactly itself**: of a scalar field of any type, and
of a relation of any kind, on either side. -/
theorem fragments_readBack (c : Config) {property target : Text} (hproperty : Plain property)
    (hidentifier : isIdentifier property = true) (htarget : Plain target)
    (hclass : isClassName target = true) :
    (∀ (type : FieldType) (nullable : Bool), ReadsBack property "Field"
      (Render.fieldProperty property type.name type.phpType nullable)
      [Render.getterName property, Render.setterName property]
      (Render.fieldAccessors c.indent property type.phpType nullable)) ∧
    ∀ (kind : RelationKind) (owning inverse nullable : Bool) (other : Option Text)
      (joinTable : Option JoinTable),
      (∀ o ∈ other, Plain o) → (∀ j ∈ joinTable, j.IsPlain) →
      ReadsBack property kind.attributeClass
        (Render.relationProperty property kind target
          (Render.relationAttribute kind target owning other joinTable inverse nullable))
        (relationMethodNames kind property target)
        (relationMethods c.indent kind property target) := by
  have hi : IsIndent c.indent := isIndent_config c
  have hname : Name property := name_of_isIdentifier hproperty hidentifier
  refine ⟨readsBack_field hi hname, fun kind owning inverse nullable other joinTable hother hjoin => ?_⟩
  have hcapital : Capital target := capital_of_isClassName htarget hclass
  have hread := readsBack_relation (r :=
    { kind, target, isOwningSide := owning && !(kind = .oneToOne && inverse), otherProperty := other
      joinTable, nullable }) hi hname hcapital hother hjoin
  rw [relationText_eq, ← relationArguments_eq] at hread
  exact hread

/-- A property and a target whose names look like words of the language. -/
theorem fragments_readBack_classArray :
    Plain "classArray" ∧ isIdentifier "classArray" = true ∧ Plain "Functions" ∧
      isClassName "Functions" = true ∧
      ReadsBack "classArray" "ManyToMany"
        (Render.relationProperty "classArray" .manyToMany "Functions"
          (Render.relationAttribute .manyToMany "Functions" true (some "array")
            (some ⟨"class", "function_id", "fn_id"⟩) false false))
        ["addFunctions", "removeFunctions", "getClassArray"]
        (Render.collectionAccessors "    " "classArray" "Functions") := by
  have hproperty : Plain "classArray" := by decide
  have hidentifier : isIdentifier "classArray" = true := by decide
  have htarget : Plain "Functions" := by decide
  have hclass : isClassName "Functions" = true := by decide
  have hother : ∀ o ∈ some ("array" : Text), Plain o := by decide
  have hjoin : ∀ j ∈ some (⟨"class", "function_id", "fn_id"⟩ : JoinTable), j.IsPlain := by
    intro j hj
    cases hj
    exact ⟨by decide, by decide, by decide⟩
  refine ⟨hproperty, hidentifier, htarget, hclass, ?_⟩
  exact (fragments_readBack {} hproperty hidentifier htarget hclass).2 .manyToMany true false false _ _
    hother hjoin

end EntityScaffold
