import EntityScaffold.Proofs.Edits
import EntityScaffold.Proofs.Rendered.Attributes
import EntityScaffold.Proofs.Source.Declared

/-!
# Definitions of properties

A property is defined as a scalar field, as a reference or as a collection, and may be defined anew
at any time.  What a property was defined as is read off its text.

* `Definition` — the three sorts; `Definition.accessors` are the accessors each generates.
* `Property.DeclaredAs` — a property in the form in which its definition is rendered.
* `Property.DeclaredAs.perm_accessorNames` — the accessors that are read off the property are those
  that its definition generates.
-/

set_option autoImplicit false

namespace EntityScaffold

open Text Source

/-- What a property is defined as. -/
inductive Definition where
  /-- A scalar field of a native type. -/
  | field (type : Text)
  /-- A reference to a target, or null. -/
  | reference (target : Text)
  /-- A collection of targets. -/
  | collection (target : Text)
  deriving DecidableEq, Repr

namespace Definition

/-- The accessors that a definition of the property generates. -/
def accessors (property : Text) : Definition → List Accessor
  | .field type => fieldAccessors property type
  | .reference target => referenceAccessors property target
  | .collection target => collectionAccessors property target

def accessorNames (property : Text) (d : Definition) : List Text :=
  (d.accessors property).map Accessor.name

/-- What a relation of a kind defines its property as. -/
def ofRelation (kind : RelationKind) (target : Text) : Definition :=
  if kind.isCollection then .collection target else .reference target

theorem accessors_ofRelation (kind : RelationKind) (property target : Text) :
    (ofRelation kind target).accessors property = relationAccessors kind property target := by
  rw [ofRelation, relationAccessors]
  split <;> rfl

/-- The accessors begin with different letters. -/
theorem nodup_initials (property : Text) (d : Definition) :
    ((d.accessors property).map Accessor.initial).Nodup := by
  have hall : (['g', 's'] : List Char).Nodup ∧ ['g', 's', 'r'].Nodup ∧ ['a', 'r', 'g'].Nodup := by
    decide
  cases d with
  | field type => exact hall.1
  | reference target => exact hall.2.1
  | collection target => exact hall.2.2

end Definition

/-! ## The text of a relation's property -/

section

variable {r : Relation} {property target : Text}

/-- What stands in front of the arguments of a relation's attribute. -/
def Relation.front (r : Relation) (target : Text) : Text :=
  (if r.kind.isCollection then "/** @var " ++ target ++ "[] */\n" else []) ++
    ("#[" ++ (r.kind.attributeClass ++ "("))

/-- What stands behind the target in a relation's attribute. -/
def Relation.moreArguments (r : Relation) : Text :=
  (r.otherArgument ++ r.joinArgument ++ r.nullArgument).flatMap ((", " : Text) ++ ·)

/-- Everything in front of the line that declares a relation's property. -/
def Relation.attributeText (r : Relation) (target : Text) : Text :=
  r.front target ++ targetArgument target (r.moreArguments ++ ")]")

/-- The line that declares a relation's property. -/
def Relation.declaration (r : Relation) (property target : Text) : Text :=
  if r.kind.isCollection then "public " ++ ("array " ++ '$' :: (property ++ ";"))
  else "public ?" ++ (target ++ (' ' :: '$' :: (property ++ " = null;")))

theorem targetArgument_append (target t u : Text) :
    targetArgument target t ++ u = targetArgument target (t ++ u) := by
  have hassoc : ∀ w e : Text, w ++ ':' :: (' ' :: (target ++ (e ++ t))) ++ u =
      w ++ ':' :: (' ' :: (target ++ (e ++ (t ++ u)))) := by
    intros
    simp only [List.append_assoc, List.cons_append]
  exact hassoc _ _

/-- The attribute of a relation names the target first. -/
theorem joinWith_arguments (r : Relation) (target : Text) :
    joinWith ", " (r.arguments target) = targetArgument target r.moreArguments := by
  have hfirst : ("targetEntity: " : Text) = "targetEntity" ++ [':', ' '] := by decide
  have hassoc : ∀ t c m : Text, "targetEntity" ++ [':', ' '] ++ t ++ c ++ m =
      "targetEntity" ++ ':' :: (' ' :: (t ++ (c ++ m))) := by
    intros
    simp only [List.append_assoc, List.cons_append, List.nil_append]
  have hcons : r.arguments target = ("targetEntity: " ++ target ++ "::class") ::
      (r.otherArgument ++ r.joinArgument ++ r.nullArgument) := r.arguments_eq target
  rw [hcons, joinWith_cons, hfirst]
  exact hassoc _ _ _

/-- **The parts of the text of a relation's property.** -/
theorem relationText_split (r : Relation) (property target : Text) :
    Edit.relationText r property target =
      r.attributeText target ++ '\n' :: r.declaration property target := by
  rw [Relation.attributeText, ← targetArgument_append, ← joinWith_arguments, relationText_eq,
    Render.relationProperty, Relation.front, Relation.declaration]
  cases r.kind.isCollection with
  | true =>
    have hcomment : ("[] */\n" : Text) = "[] */" ++ ['\n'] := by decide
    have hdeclaration : ("public array $" : Text) = "public " ++ "array " ++ ['$'] := by decide
    have hassoc : ∀ v t e g k o j b p a n c : Text,
        v ++ t ++ e ++ ['\n'] ++ (g ++ k ++ o ++ j ++ b ++ ['\n'] ++ (p ++ a ++ ['$'] ++ n ++ c)) =
          v ++ t ++ (e ++ ['\n']) ++ (g ++ (k ++ o)) ++ (j ++ b) ++
            '\n' :: (p ++ (a ++ '$' :: (n ++ c))) := by
      intros
      simp only [List.append_assoc, List.cons_append, List.nil_append]
    simp only [if_true, hcomment, hdeclaration]
    exact hassoc _ _ _ _ _ _ _ _ _ _ _ _
  | false =>
    have hdeclaration : (" $" : Text) = [' ', '$'] := by decide
    have hassoc : ∀ g k o j b p t n c : Text,
        g ++ k ++ o ++ j ++ b ++ ['\n'] ++ (p ++ t ++ [' ', '$'] ++ n ++ c) =
          [] ++ (g ++ (k ++ o)) ++ (j ++ b) ++
            '\n' :: (p ++ (t ++ (' ' :: '$' :: (n ++ c)))) := by
      intros
      simp only [List.append_assoc, List.cons_append, List.nil_append]
    simp only [Bool.false_eq_true, if_false, hdeclaration]
    exact hassoc _ _ _ _ _ _ _ _ _

theorem notMem_front (htarget : Plain target) {c : Char} (hc : c ∈ [':', '$']) :
    c ∉ r.front target := by
  have hfixed : ∀ c ∈ [':', '$'], isAsciiWord c = false ∧ c ∉ ("/** @var " : Text) ∧
      c ∉ ("[] */\n" : Text) ∧ c ∉ ("#[" : Text) ∧ c ∉ ("(" : Text) ∧
      ∀ k ∈ RelationKind.all, c ∉ k.attributeClass := by decide
  obtain ⟨hword, hopen, hclose, hgroup, hparen, hclass⟩ := hfixed c hc
  have hkind := hclass r.kind (RelationKind.mem_all r.kind)
  rw [Relation.front]
  split <;> simp only [List.mem_append, not_or]
  · exact ⟨⟨⟨hopen, htarget.notMem hword⟩, hclose⟩, hgroup, hkind, hparen⟩
  · exact ⟨List.not_mem_nil, hgroup, hkind, hparen⟩

theorem notMem_moreArguments (hother : ∀ o ∈ r.otherProperty, Plain o)
    (hjoin : ∀ j ∈ r.joinTable, j.IsPlain) : '$' ∉ r.moreArguments := by
  have hfree : ∀ {t : Text}, Plain t → '$' ∉ t := fun h => h.notMem (by decide)
  have hargument : ∀ a ∈ r.otherArgument ++ r.joinArgument ++ r.nullArgument, '$' ∉ a := by
    intro a ha
    rcases List.mem_append.mp ha with ha | ha
    · rcases List.mem_append.mp ha with ha | ha
      · rw [Relation.otherArgument] at ha
        split at ha
        · cases ha
        · rename_i other hgiven
          have hplain := hfree (hother _ (eq_some_of_given? hgiven))
          have hside : ∀ owning : Bool,
              '$' ∉ (if owning then ("inversedBy: " : Text) else "mappedBy: ") := by decide
          rw [List.mem_singleton.mp ha, List.mem_append, not_or]
          refine ⟨hside _, ?_⟩
          simp [nameValue, hplain]
      · rw [Relation.joinArgument] at ha
        split at ha
        · rename_i j hj
          obtain ⟨hname, hcolumn, hinverse⟩ := hjoin j hj
          split at ha
          · rw [List.mem_singleton.mp ha]
            simp only [List.mem_append, not_or]
            exact ⟨⟨⟨⟨⟨⟨by decide, hfree hname⟩, by decide⟩, hfree hcolumn⟩, by decide⟩,
              hfree hinverse⟩, by decide⟩
          · cases ha
        · cases ha
    · rw [Relation.nullArgument] at ha
      split at ha
      · rw [List.mem_singleton.mp ha]
        decide
      · cases ha
  intro hm
  obtain ⟨a, ha, hm⟩ := List.mem_flatMap.mp hm
  rcases List.mem_append.mp hm with hm | hm
  · exact absurd hm (by decide)
  · exact hargument a ha hm

theorem notMem_attributeText (htarget : Plain target) (hother : ∀ o ∈ r.otherProperty, Plain o)
    (hjoin : ∀ j ∈ r.joinTable, j.IsPlain) : '$' ∉ r.attributeText target := by
  have hparts : ∀ w e m b : Text, '$' ∉ w → '$' ∉ e → '$' ∉ m → '$' ∉ b →
      '$' ∉ w ++ ':' :: (' ' :: (target ++ (e ++ (m ++ b)))) := by
    intro w e m b hw he hm hb
    simp [hw, he, hm, hb, htarget.notMem (d := '$') (by decide)]
  rw [Relation.attributeText, List.mem_append, not_or]
  exact ⟨notMem_front htarget (by decide), hparts _ _ _ _ (by decide) (by decide)
    (notMem_moreArguments hother hjoin) (by decide)⟩

/-- **The target is read off the text.** -/
theorem firstTargetEntity?_relationText (htarget : Capital target) :
    firstTargetEntity? (Edit.relationText r property target) = some target := by
  rw [relationText_split, Relation.attributeText, List.append_assoc, targetArgument_append]
  exact firstTargetEntity?_append (notMem_front htarget.1 (by decide)) htarget _

/-- **Whether a relation's property is a collection is read off the text.** -/
theorem declaresArray_relationText (hproperty : Plain property) (htarget : Capital target)
    (hother : ∀ o ∈ r.otherProperty, Plain o) (hjoin : ∀ j ∈ r.joinTable, j.IsPlain) :
    declaresArray property none (Edit.relationText r property target) = r.kind.isCollection := by
  have hlast : ∀ (s : Text) (c : Char), ∀ d ∈ (s ++ [c]).getLast?.or none, d = c := by
    intro s c d hd
    simpa using hd.symm
  have hassoc : ∀ a b c t : Text, a ++ ((b ++ c) ++ t) = a ++ b ++ c ++ t := by
    intros
    simp only [List.append_assoc]
  rw [relationText_split, Relation.declaration]
  cases r.kind.isCollection with
  | true =>
    have hpublic : '\n' :: ("public " : Text) = "\npublic" ++ [' '] := by decide
    rw [if_pos rfl, ← List.cons_append, hpublic, hassoc]
    refine declaresArray_append (arrayOf_append property fun c hc => ?_) fun d hd => ?_
    · cases hc
      decide
    · rw [hlast _ _ d hd]
      decide
  | false =>
    have hpublic : '\n' :: ("public ?" : Text) = "\npublic " ++ ['?'] := by decide
    rw [if_neg Bool.false_ne_true, ← List.cons_append, hpublic, hassoc]
    refine declaresArray_eq_false ?_ ?_ htarget fun d hd => ?_
    · simp only [List.mem_append, not_or]
      exact ⟨⟨notMem_attributeText htarget.1 hother hjoin, by decide⟩, by decide⟩
    · rw [List.mem_append, not_or]
      exact ⟨hproperty.notMem (by decide), by decide⟩
    · rw [hlast _ '?' d (by rwa [Option.or_none])]
      decide

end

/-! ## What a property is declared as -/

/-- A property in the form in which its definition is rendered. -/
inductive Source.Property.DeclaredAs : Property → Definition → Prop where
  | field {p : Property} {type : Text} (name : Name p.name) (attributes : p.attributes = ["Field"])
    (isType : IsType type)
    (text : ∃ front rest, p.text = front ++ "\npublic " ++ type ++ " $" ++ p.name ++ rest) :
    p.DeclaredAs (.field type)
  | relation {r : Relation} {property target : Text} (name : Name property)
    (capital : Capital target) (other : ∀ o ∈ r.otherProperty, Plain o)
    (joinTable : ∀ j ∈ r.joinTable, j.IsPlain) :
    (relationProperty r property target).DeclaredAs (.ofRelation r.kind target)

/-- What attributes and text show of the definition of a property: a scalar field has its attribute
and its type; a relation has its own, and is declared as an array or as a reference that may be
null. -/
def Source.Property.Shows (p : Property) : Definition → Prop
  | .field type => p.isField = true ∧ p.isRelation = false ∧
    ∃ front rest, p.text = front ++ "\npublic " ++ type ++ " $" ++ p.name ++ rest
  | .reference target => p.isField = false ∧ p.isRelation = true ∧
    firstTargetEntity? p.text = some target ∧
    ∃ front, p.text = front ++ "\npublic ?" ++ target ++ " $" ++ p.name ++ " = null;"
  | .collection target => p.isField = false ∧ p.isRelation = true ∧
    firstTargetEntity? p.text = some target ∧
    ∃ front, p.text = front ++ "\npublic array $" ++ p.name ++ ";"

section

variable {p : Property} {d : Definition}

theorem Source.Property.DeclaredAs.name (h : p.DeclaredAs d) : Name p.name := by
  cases h with
  | field name => exact name
  | relation name => exact name

/-- A field that is rendered shows its type. -/
theorem declaredAs_fieldProperty {name php : Text} (hname : Name name) (hphp : IsFieldType php)
    (type : FieldType) (nullable : Bool) :
    (fieldProperty name type php nullable).DeclaredAs
      (.field (Render.nullableType php nullable)) := by
  obtain ⟨a, r, htext⟩ : ∃ a r, (fieldProperty name type php nullable).text =
      ofLines [a, "public " ++ Render.nullableType php nullable ++ " $" ++ name ++ r ++ ";"] :=
    ⟨_, _, rfl⟩
  have hline : ("\npublic " : Text) = '\n' :: "public " := by decide
  have hassoc : ∀ v t o e : Text, ofLines [a, v ++ t ++ o ++ name ++ r ++ e] =
      a ++ '\n' :: v ++ t ++ o ++ name ++ (r ++ e) := by
    intros
    simp [ofLines_cons, ofLines_singleton]
  refine .field hname rfl (hphp nullable).1 ⟨a, r ++ ";", ?_⟩
  rw [htext, hline]
  exact hassoc _ _ _ _

theorem isRelation_relationProperty (r : Relation) (property target : Text) :
    (relationProperty r property target).isRelation = true ∧
      (relationProperty r property target).isField = false := by
  have hall : ∀ k ∈ RelationKind.all,
      ([k.attributeClass].any fun a => RelationKind.all.any (·.attributeClass == a)) = true ∧
        [k.attributeClass].contains ("Field" : Text) = false := by decide
  exact hall r.kind (RelationKind.mem_all r.kind)

theorem isRelation_of_field (h : p.attributes = ["Field"]) :
    p.isRelation = false ∧ p.isField = true := by
  rw [Property.isRelation, Property.isField, h]
  decide

/-- **A declared property shows its definition.** -/
theorem Source.Property.DeclaredAs.shows (h : p.DeclaredAs d) : p.Shows d := by
  cases h with
  | field name attributes isType text =>
    obtain ⟨hrelation, hfield⟩ := isRelation_of_field attributes
    exact ⟨hfield, hrelation, text⟩
  | @relation r property target name htarget other joinTable =>
    obtain ⟨hrelation, hfield⟩ := isRelation_relationProperty r property target
    have htext : (relationProperty r property target).text =
        r.attributeText target ++ '\n' :: r.declaration property target :=
      relationText_split r property target
    rw [Relation.declaration] at htext
    rw [Definition.ofRelation]
    cases hkind : r.kind.isCollection with
    | true =>
      refine ⟨hfield, hrelation, firstTargetEntity?_relationText htarget, r.attributeText target, ?_⟩
      have hline : ("\npublic array $" : Text) = '\n' :: "public " ++ "array " ++ ['$'] := by decide
      rw [htext, hkind, if_pos rfl, hline]
      have hassoc : ∀ a b c e : Text, a ++ '\n' :: (b ++ (c ++ '$' :: (property ++ e))) =
          a ++ ('\n' :: b ++ c ++ ['$']) ++ property ++ e := by
        intros
        simp only [List.append_assoc, List.cons_append, List.nil_append]
      exact hassoc _ _ _ _
    | false =>
      refine ⟨hfield, hrelation, firstTargetEntity?_relationText htarget, r.attributeText target, ?_⟩
      have hline : ("\npublic ?" : Text) = '\n' :: "public ?" := by decide
      have hdollar : (" $" : Text) = [' ', '$'] := by decide
      rw [htext, hkind, if_neg Bool.false_ne_true, hline, hdollar]
      have hassoc : ∀ a b e : Text, a ++ '\n' :: (b ++ (target ++ (' ' :: '$' :: (property ++ e)))) =
          a ++ '\n' :: b ++ target ++ [' ', '$'] ++ property ++ e := by
        intros
        simp only [List.append_assoc, List.cons_append, List.nil_append]
      exact hassoc _ _ _

/-- The accessors that a definition in force generates have plain names. -/
theorem Source.Property.DeclaredAs.isPlain (h : p.DeclaredAs d) :
    ∀ a ∈ d.accessors p.name, a.IsPlain := by
  cases h with
  | field name attributes isType text =>
    intro a ha
    simp only [Definition.accessors, fieldAccessors, List.mem_cons, List.not_mem_nil,
      or_false] at ha
    rcases ha with rfl | rfl <;> exact ⟨name.plain, isType⟩
  | @relation r property target name capital other joinTable =>
    have hname : (relationProperty r property target).name = property := rfl
    rw [hname, Definition.accessors_ofRelation]
    exact isPlain_relationAccessors name.plain capital

/-- **The accessors read off a property are those that its definition generates**, up to
their order. -/
theorem Source.Property.DeclaredAs.perm_accessorNames (h : p.DeclaredAs d) :
    (Edit.accessorNames p).Perm (d.accessorNames p.name) := by
  cases h with
  | field _ attributes =>
    obtain ⟨hrelation, hfield⟩ := isRelation_of_field attributes
    rw [Edit.accessorNames, hrelation, hfield]
    rfl
  | @relation r property target name htarget other joinTable =>
    have hcollection : Edit.isCollection (relationProperty r property target) =
        r.kind.isCollection := declaresArray_relationText name.plain htarget other joinTable
    have hfound : firstTargetEntity? (relationProperty r property target).text = some target :=
      firstTargetEntity?_relationText htarget
    rw [Edit.accessorNames, (isRelation_relationProperty r property target).1, hcollection, hfound,
      Definition.ofRelation]
    cases r.kind.isCollection with
    | true =>
      -- the getter comes first in the one list and last in the other
      simp only [if_true, shortName_of_plain htarget.1]
      have hperm : ∀ x y z : Text, [x, y, z].Perm [y, z, x] := fun x y z =>
        (List.perm_append_singleton x [y, z]).symm
      exact hperm _ _ _
    | false => rfl

theorem Source.Property.DeclaredAs.mem_accessorNames (h : p.DeclaredAs d) {name : Text} :
    name ∈ Edit.accessorNames p ↔ name ∈ d.accessorNames p.name :=
  h.perm_accessorNames.mem_iff

end

end EntityScaffold
