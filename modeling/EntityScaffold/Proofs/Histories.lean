import EntityScaffold.Proofs.Coherent
import EntityScaffold.Proofs.Incremental

/-!
# Editing histories

A new entity's class is read, calls of the editor succeed one after another, and in between the
class may be written and read again.  What was defined before may be defined anew, as often as one
likes.

* `History` — the classes that this leads to, beside what their properties are defined as.
* `History.coherent` — their members agree with the definitions, by induction on the history.
* `History.invariant` — what this says of properties, methods and the constructor.
* `History.no_orphans` — nothing generated for a superseded definition remains.
-/

set_option autoImplicit false

namespace EntityScaffold

open Text Source Edit

/-! ## Calls -/

namespace Call

/-- Whether the names in a call are plain, and so is its native type. -/
def HasPlainNames : Call → Prop
  | addField name _ phpType _ => Plain name ∧ ∀ t ∈ given? phpType, PlainType t
  | addRelation r targetName => r.IsPlain ((given? targetName).getD r.targetName)

/-- Whether the names in a call are accepted, and so is its database type. -/
def IsAccepted : Call → Prop
  | addField name type _ _ => isIdentifier name = true ∧ ∃ t, requireFieldType type = .ok t
  | addRelation r targetName => (∃ p, given? r.property = some p ∧ isIdentifier p = true) ∧
    isClassName ((given? targetName).getD r.targetName) = true

/-- The property that a call defines, and what it defines it as. -/
def defines? : Call → Option (Text × Definition)
  | addField name type phpType nullable => (requireFieldType type).toOption.map fun t =>
    (name, .field (Render.nullableType ((given? phpType).getD t.phpType) nullable))
  | addRelation r targetName => (given? r.property).map fun property =>
    (property, .ofRelation r.kind ((given? targetName).getD r.targetName))

end Call

/-- What the property of a new entity is defined as. -/
def Definitions.initial : Definitions := Function.update (fun _ => none) "id" (some (.field "int"))

/-- What properties are defined as after a call. -/
def Definitions.after (table : Definitions) (call : Call) : Definitions :=
  call.defines?.elim table fun e => Function.update table e.1 (some e.2)

section

variable {table : Definitions} {f : ClassFile} {i : Text} {d : Desk} {call : Call}

theorem isFieldType_given {phpType : Option Text} (h : ∀ t ∈ given? phpType, PlainType t)
    (type : FieldType) : IsFieldType ((given? phpType).getD type.phpType) := by
  cases hgiven : given? phpType with
  | none => exact isFieldType_native (phpType_mem type)
  | some php => exact (h php hgiven).isFieldType

/-- A call that succeeds in adding a field comes to the change. -/
theorem added_of_addFieldOf {name : Text} {value : Value} {phpType : Option Text} {nullable : Bool}
    (hi : IsIndent i) (hname : Plain name) (hphp : ∀ t ∈ given? phpType, PlainType t)
    (hrun : ((addFieldOf i name value phpType nullable).run d).1 = .ok ()) :
    ∃ type, requireFieldType value = .ok type ∧ isIdentifier name = true ∧
      ((addFieldOf i name value phpType nullable).run d).2.file =
        EntityScaffold.fieldAdded i name type ((given? phpType).getD type.phpType) nullable d.file := by
  cases haccepted : isIdentifier name with
  | false =>
    rw [run_addFieldOf_refused haccepted] at hrun
    cases hrun
  | true =>
    cases htype : requireFieldType value with
    | error e =>
      rw [run_addFieldOf_unknown haccepted htype] at hrun
      cases hrun
    | ok type =>
      rw [addFieldOf_eq haccepted htype] at hrun ⊢
      exact ⟨type, rfl, rfl, (added_of_addField hi hname (isFieldType_given hphp type) hrun).2⟩

/-- **A call that succeeds defines one property anew.** -/
theorem Coherent.redefines (h : Coherent table d.file) (hi : IsIndent i)
    (hplain : call.HasPlainNames) (hrun : ((call.edit i).run d).1 = .ok ()) :
    ∃ e, call.defines? = some e ∧
      Redefines i table e.1 e.2 d.file ((call.edit i).run d).2.file := by
  cases call with
  | addField name type phpType nullable =>
    obtain ⟨hname, hphp⟩ := hplain
    rw [Call.edit] at hrun ⊢
    obtain ⟨t, htype, haccepted, hadded⟩ := added_of_addFieldOf hi hname hphp hrun
    rw [hadded, Call.defines?, htype]
    exact ⟨_, rfl, h.fieldAdded hi (name_of_isIdentifier hname haccepted)
      (isFieldType_given hphp t) t nullable⟩
  | addRelation r targetName =>
    have hplain : r.IsPlain ((given? targetName).getD r.targetName) := hplain
    rw [Call.edit] at hrun ⊢
    obtain ⟨property, hproperty, hname, htarget, hadded⟩ := added_of_addRelation hi hplain hrun
    obtain ⟨g, hg, hredefines⟩ := h.relationAdded hi
      (name_of_isIdentifier (hplain.property _ (eq_some_of_given? hproperty)) hname)
      (capital_of_isClassName hplain.target htarget) hplain.other hplain.joinTable
    cases hadded.symm.trans hg
    rw [Call.defines?, hproperty]
    exact ⟨_, rfl, hredefines⟩

theorem Definitions.after_of_defines? {e : Text × Definition} (he : call.defines? = some e) :
    table.after call = Function.update table e.1 (some e.2) := by
  rw [Definitions.after, he]
  rfl

/-- **A call that succeeds keeps the members in agreement.** -/
theorem Coherent.after_call (h : Coherent table d.file) (hi : IsIndent i)
    (hplain : call.HasPlainNames) (hrun : ((call.edit i).run d).1 = .ok ()) :
    Coherent (table.after call) ((call.edit i).run d).2.file := by
  obtain ⟨e, he, hredefines⟩ := h.redefines hi hplain hrun
  rw [Definitions.after_of_defines? he]
  exact hredefines.coherent

/-- **A call with names that are accepted succeeds.** -/
theorem Regular.call_succeeds (h : Regular d.file) (hi : IsIndent i)
    (hplain : call.HasPlainNames) (haccepted : call.IsAccepted) :
    ((call.edit i).run d).1 = .ok () := by
  cases call with
  | addField name type phpType nullable =>
    obtain ⟨hname, t, htype⟩ := haccepted
    obtain ⟨log, hrun⟩ : ∃ log, (Edit.addField i name t phpType nullable).run d = (.ok (),
        ⟨EntityScaffold.fieldAdded i name t ((given? phpType).getD t.phpType) nullable d.file, log⟩) :=
      run_addField hi hname hplain.1 (isFieldType_given hplain.2 t) d
    rw [Call.edit, addFieldOf_eq hname htype, hrun]
  | addRelation r targetName =>
    have hplain : r.IsPlain ((given? targetName).getD r.targetName) := hplain
    obtain ⟨⟨property, hproperty, hname⟩, htarget⟩ := haccepted
    obtain ⟨d', hrun, hadded⟩ := run_addRelation hi hproperty hname htarget hplain d
    obtain ⟨g, hg, -⟩ := h.relationAdded hi
      (name_of_isIdentifier (hplain.property _ (eq_some_of_given? hproperty)) hname)
      (capital_of_isClassName hplain.target htarget) hplain.other hplain.joinTable
    rw [hg] at hadded
    obtain ⟨log, rfl⟩ := hadded
    rw [Call.edit, hrun]

end

/-! ## Histories -/

/-- The classes that calls with plain names lead to from a new entity, and what their properties are
defined as.  Between calls the class may be written and read again. -/
inductive History : Definitions → ClassFile → Prop where
  | stub {c : Config} {name : Text} {ns path : Option Text} {f : ClassFile}
      (plain : PlainStub c name ns)
      (read : ClassFile.parse (Render.entityStub c name ns) path = .ok f) :
      History .initial f
  | call {table : Definitions} {d : Desk} {c : Config} {call : Call}
      (before : History table d.file) (plain : call.HasPlainNames)
      (succeeds : ((call.edit c.indent).run d).1 = .ok ()) :
      History (table.after call) ((call.edit c.indent).run d).2.file
  | reload {table : Definitions} {f g : ClassFile} {path : Option Text} (before : History table f)
      (read : ClassFile.parse f.serialize path = .ok g) : History table g

section

variable {table : Definitions} {f g : ClassFile}

/-- Coherence depends on the members only. -/
theorem Coherent.of_members_eq (h : Coherent table f) (hregular : Regular g)
    (hindent : g.indent = f.indent) (hmembers : g.members = f.members) : Coherent table g := by
  have hproperties : g.properties = f.properties := by
    rw [ClassFile.properties_eq, hmembers, ClassFile.properties_eq]
  have hmethods : g.methods = f.methods := by
    rw [ClassFile.methods_eq, hmembers, ClassFile.methods_eq]
  constructor
  case regular => exact hregular
  case properties => exact hproperties ▸ h.properties
  case methods => exact hmethods ▸ h.methods
  case declared => exact hproperties ▸ h.declared
  case defined => exact hproperties ▸ h.defined
  case constructor => exact hindent ▸ hmethods ▸ h.constructor
  case accessors => exact hmethods ▸ h.accessors

theorem declaredAs_keyProperty : keyProperty.DeclaredAs (.field "int") :=
  .field ⟨by decide, by decide⟩ rfl (isType_native (t := "int") (by decide) false)
    ⟨"#[Field(type: 'INT', autoIncrement: true, primaryKey: true)]", ";", by decide⟩

theorem Definitions.initial_eq_some {name : Text} {d : Definition}
    (h : Definitions.initial name = some d) : name = "id" ∧ d = .field "int" := by
  by_cases hname : name = "id"
  · subst hname
    exact ⟨rfl, (Option.some.inj h).symm⟩
  · rw [Definitions.initial, Function.update_of_ne hname] at h
    cases h

/-- A new entity has its key and what reads it, and a constructor that does nothing. -/
theorem coherent_stubClass {c : Config} {name : Text} {ns : Option Text} (h : PlainStub c name ns) :
    Coherent .initial (stubClass c name ns) := by
  have hmembers : (stubClass c name ns).members = [.property keyProperty,
      .method (constructorOf c.indent []), .method (keyGetter.method c.indent)] := by
    rw [ClassFile.members, stubClass, membersOf_spaced]
  have hproperties : (stubClass c name ns).properties = [keyProperty] := by
    rw [ClassFile.properties_eq, hmembers]
    rfl
  have hmethods : (stubClass c name ns).methods =
      [constructorOf c.indent [], keyGetter.method c.indent] := by
    rw [ClassFile.methods_eq, hmembers]
    rfl
  refine ⟨regular_stubClass h, ?properties, ?methods, ?declared, ?defined, ?constructor,
    ?accessors⟩
  case properties =>
    rw [hproperties]
    exact List.nodup_singleton _
  case methods =>
    have hne : (constructorOf c.indent []).key ≠ (keyGetter.method c.indent).key := by
      rw [key_constructorOf]
      exact keyGetter.lower_name_ne.symm
    rw [hmethods]
    simp [hne]
  case declared =>
    rw [hproperties]
    intro p hp
    rw [List.mem_singleton.mp hp]
    exact ⟨_, rfl, declaredAs_keyProperty⟩
  case defined =>
    intro name d hd
    obtain ⟨rfl, rfl⟩ := Definitions.initial_eq_some hd
    exact ⟨keyProperty, hproperties ▸ List.mem_cons_self, rfl⟩
  case constructor =>
    refine ⟨[], List.nodup_nil, fun name => iff_of_false List.not_mem_nil ?_,
      hmethods ▸ List.mem_cons_self⟩
    rintro ⟨target, ht⟩
    cases (Definitions.initial_eq_some ht).2
  case accessors =>
    rw [hmethods]
    intro m hm
    simp only [List.mem_cons, List.not_mem_nil, or_false] at hm
    rcases hm with rfl | rfl
    · exact .inl (isConstructor_iff.mpr (key_constructorOf _ _))
    · exact .inr ⟨"id", .field "int", rfl, keyGetter, List.mem_cons_self, c.indent, rfl⟩

/-- **The members of a class agree with the history of its edits.** -/
theorem History.coherent (h : History table f) : Coherent table f := by
  induction h with
  | @stub c name ns path f plain read =>
    rw [parse_entityStub plain path] at read
    cases read
    have hregular := (regular_stubClass plain).normalized path
    rw [normalized_stubClass] at hregular
    exact (coherent_stubClass plain).of_members_eq hregular rfl rfl
  | @call table d c call before plain succeeds ih =>
    exact ih.after_call (isIndent_config c) plain succeeds
  | @reload table f g path before read ih =>
    rw [ih.regular.settled.parse_serialize path] at read
    cases read
    exact ih.of_members_eq (ih.regular.normalized path) rfl f.members_normalized

/-- **Neither reading what has been written nor a call with names that are accepted fails.** -/
theorem History.never_fails (h : History table f) :
    (∀ path, ∃ g, ClassFile.parse f.serialize path = .ok g) ∧
      ∀ (c : Config) (log : List Log.Record) (call : Call), call.HasPlainNames → call.IsAccepted →
        ((call.edit c.indent).run ⟨f, log⟩).1 = .ok () :=
  ⟨fun path => ⟨_, h.coherent.regular.settled.parse_serialize path⟩, fun c _ _ hplain haccepted =>
    Regular.call_succeeds h.coherent.regular (isIndent_config c) hplain haccepted⟩

/-! ## What holds of every history -/

/-- **The invariant of editing histories.**  Names of properties are distinct, and so are names of
methods but for letter case; every property shows its last definition; there is one constructor, in
which each collection has one line that makes it empty, and nothing else has such a line. -/
theorem History.invariant (h : History table f) :
    (f.properties.map Property.name).Nodup ∧ (f.methods.map fun m => lower m.name).Nodup ∧
      (∀ p ∈ f.properties, ∃ d, table p.name = some d ∧ p.Shows d) ∧
      (∀ name d, table name = some d → ∃ p ∈ f.properties, p.name = name) ∧
      ∃ m, f.methods.filter Method.isConstructor = [m] ∧
        (∀ name target, table name = some (.collection target) →
          m.countLines (Render.collectionInit name) = 1) ∧
        ∀ name, (∀ target, table name ≠ some (.collection target)) →
          m.countLines (Render.collectionInit name) = 0 := by
  have hc := h.coherent
  obtain ⟨collections, hnodup, hcollections, hmem⟩ := hc.constructor
  have hcount := countLines_constructorOf hc.regular.indent fun p hp =>
    (hc.name_of_collection ((hcollections p).mp hp)).plain
  refine ⟨hc.properties, hc.methods, fun p hp => ?_, hc.defined, _,
    filter_isConstructor hc.methods hmem (isConstructor_iff.mpr (key_constructorOf _ _)),
    fun name target ht => ?_, fun name hnone => ?_⟩
  · obtain ⟨d, hd, hdeclared⟩ := hc.declared p hp
    exact ⟨d, hd, hdeclared.shows⟩
  · rw [hcount]
    exact List.count_eq_one_of_mem hnodup ((hcollections name).mpr ⟨target, ht⟩)
  · rw [hcount]
    exact List.count_eq_zero_of_not_mem fun hm => by
      obtain ⟨target, ht⟩ := (hcollections name).mp hm
      exact hnone target ht

/-- A call that relates a post to tags. -/
def relateTags (kind : RelationKind) : Call :=
  .addRelation { property := some "tags", kind, target := "Tag" } none

/-- A post has many tags, is written and read again, and then has but one. -/
theorem exists_history_of_post : ∃ f g,
    History (Definitions.initial.after (relateTags .oneToMany)) f ∧
    History ((Definitions.initial.after (relateTags .oneToMany)).after (relateTags .manyToOne)) g := by
  have hplain : ∀ kind, (relateTags kind).HasPlainNames := by
    intro kind
    refine ⟨(by decide : Plain "Tag"), fun p hp => ?_, fun o ho => (by cases ho),
      fun j hj => (by cases hj)⟩
    cases hp
    decide
  have haccepted : ∀ kind, (relateTags kind).IsAccepted := fun kind =>
    ⟨⟨"tags", rfl, by decide⟩, (by decide : isClassName "Tag" = true)⟩
  have hstub : PlainStub {} "Post" none :=
    ⟨by decide, by decide, by decide, ⟨by decide, by decide⟩⟩
  have hnew := History.stub hstub (parse_entityStub hstub none)
  have htags := History.call (d := ⟨_, []⟩) hnew (hplain .oneToMany)
    (hnew.never_fails.2 {} _ _ (hplain .oneToMany) (haccepted .oneToMany))
  obtain ⟨g, hg⟩ := htags.never_fails.1 none
  have hread := htags.reload hg
  exact ⟨_, _, htags, History.call (d := ⟨_, []⟩) hread (hplain .manyToOne)
    (hread.never_fails.2 {} _ _ (hplain .manyToOne) (haccepted .manyToOne))⟩

/-- What the properties are defined as in the end. -/
theorem after_relateTags :
    (Definitions.initial.after (relateTags .oneToMany)).after (relateTags .manyToOne) =
      Function.update Definitions.initial "tags" (some (.reference "Tag")) := by
  have hafter : (Definitions.initial.after (relateTags .oneToMany)).after (relateTags .manyToOne) =
    Function.update (Function.update Definitions.initial "tags" (some (.collection "Tag"))) "tags"
      (some (.reference "Tag")) := rfl
  rw [hafter, Function.update_idem]

/-- Tags are made empty once; when there is but one tag, nothing is made empty. -/
theorem History.invariant_of_post : ∃ f g,
    History (Definitions.initial.after (relateTags .oneToMany)) f ∧
    History ((Definitions.initial.after (relateTags .oneToMany)).after (relateTags .manyToOne)) g ∧
    (∃ m, f.methods.filter Method.isConstructor = [m] ∧
      m.countLines (Render.collectionInit "tags") = 1) ∧
    ∃ m, g.methods.filter Method.isConstructor = [m] ∧
      m.countLines (Render.collectionInit "tags") = 0 := by
  obtain ⟨f, g, hf, hg⟩ := exists_history_of_post
  obtain ⟨-, -, -, -, m, hm, hone, -⟩ := History.invariant hf
  obtain ⟨-, -, -, -, k, hk, -, hnone⟩ := History.invariant hg
  refine ⟨f, g, hf, hg, ⟨m, hm, hone "tags" "Tag" rfl⟩, k, hk, hnone "tags" fun target ht => ?_⟩
  rw [after_relateTags, Function.update_self] at ht
  cases ht

/-- **No orphans.**  Every method but the constructor is an accessor that the last definition of a
property generates; nothing generated for a superseded definition remains. -/
theorem History.no_orphans (h : History table f) {m : Method} (hm : m ∈ f.methods) :
    m.isConstructor = true ∨ ∃ p ∈ f.properties, ∃ d, table p.name = some d ∧ p.Shows d ∧
      lower m.name ∈ (d.accessorNames p.name).map lower ∧
      ∃ a ∈ d.accessors p.name, ∃ i, m = a.method i := by
  refine (h.coherent.accessors m hm).imp_right ?_
  rintro ⟨name, d, hd, a, ha, i, rfl⟩
  obtain ⟨p, hp, rfl, hdeclared⟩ := h.coherent.declaredAs hd
  exact ⟨p, hp, d, hd, hdeclared.shows, List.mem_map_of_mem (List.mem_map_of_mem ha), a, ha, i, rfl⟩

/-- Nothing is left of the tags of a post that has but one tag. -/
theorem History.no_orphans_of_post : ∃ g,
    History ((Definitions.initial.after (relateTags .oneToMany)).after (relateTags .manyToOne)) g ∧
    ∀ m ∈ g.methods, lower m.name ≠ lower "addTag" := by
  obtain ⟨f, g, -, hg⟩ := exists_history_of_post
  refine ⟨g, hg, fun m hm hname => ?_⟩
  rcases History.no_orphans hg hm with hc | ⟨p, hp, d, hd, -, hnames, -⟩
  · have hkey : lower m.name = constructorName := isConstructor_iff.mp hc
    exact absurd (hname.symm.trans hkey) (by decide)
  · rw [hname] at hnames
    rw [after_relateTags] at hd
    by_cases htags : p.name = "tags"
    · rw [htags, Function.update_self] at hd
      cases hd
      rw [htags] at hnames
      exact absurd hnames (by decide)
    · rw [Function.update_of_ne htags] at hd
      obtain ⟨hid, rfl⟩ := Definitions.initial_eq_some hd
      rw [hid] at hnames
      exact absurd hnames (by decide)

end

end EntityScaffold
