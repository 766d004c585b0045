import EntityScaffold.Proofs.Placing
import EntityScaffold.Proofs.Regular
import EntityScaffold.Proofs.Rendered.Definitions
import Mathlib.Logic.Function.Basic

/-!
# Classes whose members agree

A class made by edits alone, beside a table of what its properties are defined as at the moment.

* `Coherent` — properties are declared as the table says, the constructor makes just the collections
  empty, and no method but accessors that current definitions generate is there.
* `Redefines` — what it takes to define a property anew: the members still agree, and of the methods
  just those stay that neither definition generates.
* `Coherent.redefined` — an edit that replaces the right members does that.
* `Coherent.fieldAdded`, `Coherent.relationAdded` — so do the edits with plain names.
-/

set_option autoImplicit false

namespace EntityScaffold

open Text Source Edit

/-! ## The accessors of a property -/

/-- The accessors that a definition generates have different names. -/
theorem Definition.nodup_accessors (d : Definition) (property i : Text) :
    (((d.accessors property).map (·.method i)).map Method.key).Nodup := by
  have hfirst : (((d.accessors property).map (·.method i)).map Method.key).map List.head? =
      ((d.accessors property).map Accessor.initial).map some := by
    simp only [List.map_map]
    exact List.map_congr_left fun a _ => a.head?_lower_name
  refine List.Nodup.of_map List.head? ?_
  rw [hfirst]
  exact (d.nodup_initials property).map fun _ _ => Option.some.inj

/-- The constructor is not an accessor. -/
theorem Definition.constructor_notMem (d : Definition) (property : Text) :
    constructorName ∉ (d.accessorNames property).map lower := by
  intro hm
  rw [Definition.accessorNames, List.map_map, List.mem_map] at hm
  obtain ⟨a, -, hkey⟩ := hm
  exact a.lower_name_ne hkey

theorem keys_accessors (as : List Accessor) (i : Text) :
    (as.map (·.method i)).map Method.key = (as.map Accessor.name).map lower := by
  simp only [List.map_map]
  rfl

/-! ## The constructor -/

section

variable {f : ClassFile} {collections : List Text} {property : Text}

theorem key_constructorOf (i : Text) (collections : List Text) :
    (constructorOf i collections).key = constructorName := lower_constructorName

theorem constructor?_of_mem (hn : (f.methods.map Method.key).Nodup)
    (hmem : constructorOf f.indent collections ∈ f.methods) :
    f.constructor? = some (constructorOf f.indent collections) :=
  (constructor?_eq_some_iff hn).mpr ⟨hmem, isConstructor_iff.mpr (key_constructorOf _ _)⟩

/-- One collection less to make empty. -/
theorem put_dropCollectionInit (hi : IsIndent f.indent) (hn : (f.methods.map Method.key).Nodup)
    (hplain : ∀ p ∈ collections, Plain p) (hmem : constructorOf f.indent collections ∈ f.methods)
    (property : Text) :
    Put Method.key (constructorOf f.indent (collections.filter (· != property))) f.methods
      (dropCollectionInit property f).methods := by
  rw [dropCollectionInit, constructor?_of_mem hn hmem, Option.bind_some,
    constructorOf_dropStatement? hi hplain]
  by_cases hp : property ∈ collections
  · rw [if_pos hp]
    exact f.put_replaceMethod rfl ⟨_, hmem, rfl⟩
  · rw [if_neg hp, List.filter_eq_self.mpr fun p hm => bne_iff_ne.mpr (ne_of_mem_of_not_mem hm hp)]
    exact .self hmem hn

/-- One more collection to make empty, unless it is made empty already. -/
theorem put_collectionEnsured (hi : IsIndent f.indent) (hn : (f.methods.map Method.key).Nodup)
    (hnames : ∀ p ∈ collections, Name p) (hmem : constructorOf f.indent collections ∈ f.methods)
    (property : Text) :
    ∃ g, collectionEnsured property f = .ok g ∧ Put Method.key (constructorOf f.indent
      (if property ∈ collections then collections else collections ++ [property])) f.methods
        g.methods := by
  have hfound := constructor?_of_mem hn hmem
  have hsame : f.withConstructor = f := by
    rw [ClassFile.withConstructor, hfound]
    rfl
  have hplain : ∀ p ∈ collections, Plain p := fun p hp => (hnames p hp).plain
  simp only [collectionEnsured, hsame, statementEnsured, hfound,
    assigned_constructorOf_eq hi hnames, List.contains_eq_mem,
    constructorOf_addStatement hi hplain]
  by_cases hp : property ∈ collections
  · rw [decide_eq_true hp, if_pos rfl, if_pos hp]
    exact ⟨f, rfl, .self hmem hn⟩
  · rw [decide_eq_false hp, if_neg Bool.false_ne_true, if_neg hp]
    exact ⟨_, rfl, f.put_replaceMethod rfl ⟨_, hmem, rfl⟩⟩

/-- **What a relation does to the constructor**: its property is made empty just if it is a
collection. -/
theorem put_constructor (hi : IsIndent f.indent) (hn : (f.methods.map Method.key).Nodup)
    (hnames : ∀ p ∈ collections, Name p) (hnodup : collections.Nodup)
    (hmem : constructorOf f.indent collections ∈ f.methods) (property : Text)
    (isCollection : Bool) :
    ∃ g collections', (if isCollection then collectionEnsured property f
        else .ok (dropCollectionInit property f)) = .ok g ∧
      Put Method.key (constructorOf f.indent collections') f.methods g.methods ∧
      collections'.Nodup ∧ ∀ other, other ∈ collections' ↔
        other = property ∧ isCollection = true ∨ other ≠ property ∧ other ∈ collections := by
  cases isCollection with
  | true =>
    obtain ⟨g, hg, hput⟩ := put_collectionEnsured hi hn hnames hmem property
    refine ⟨g, _, hg, hput, ?_, fun other => ?_⟩
    · split
      · exact hnodup
      · rename_i hp
        rw [← List.concat_eq_append]
        exact hnodup.concat hp
    · have hmem' : other ∈ (if property ∈ collections then collections
          else collections ++ [property]) ↔ other = property ∨ other ∈ collections := by
        split
        · rename_i hp
          exact (or_iff_right_of_imp fun he => he ▸ hp).symm
        · rw [List.mem_append, List.mem_singleton, or_comm]
      rw [hmem']
      by_cases he : other = property <;> simp [he]
  | false =>
    refine ⟨_, _, rfl, put_dropCollectionInit hi hn (fun p hp => (hnames p hp).plain) hmem property,
      hnodup.filter (· != property), fun other => ?_⟩
    rw [List.mem_filter, bne_iff_ne, and_comm]
    simp

end

/-! ## Coherence -/

/-- What properties are defined as, by their names. -/
abbrev Definitions := Text → Option Definition

/-- Whether a method is an accessor that the definition in force of a property generates. -/
def Definitions.Generate (table : Definitions) (m : Method) : Prop :=
  ∃ name d, table name = some d ∧ ∃ a ∈ d.accessors name, ∃ i, m = a.method i

/-- A class made by edits alone whose members agree with what its properties are defined as. -/
structure Coherent (table : Definitions) (f : ClassFile) : Prop where
  regular : Regular f
  properties : (f.properties.map Property.name).Nodup
  methods : (f.methods.map Method.key).Nodup
  declared : ∀ p ∈ f.properties, ∃ d, table p.name = some d ∧ p.DeclaredAs d
  defined : ∀ name d, table name = some d → ∃ p ∈ f.properties, p.name = name
  constructor : ∃ collections : List Text, collections.Nodup ∧
    (∀ name, name ∈ collections ↔ ∃ target, table name = some (.collection target)) ∧
    constructorOf f.indent collections ∈ f.methods
  accessors : ∀ m ∈ f.methods, m.isConstructor = true ∨ table.Generate m

section

variable {table : Definitions} {f : ClassFile}

/-- Every definition is declared. -/
theorem Coherent.declaredAs (h : Coherent table f) {name : Text} {d : Definition}
    (hd : table name = some d) : ∃ p ∈ f.properties, p.name = name ∧ p.DeclaredAs d := by
  obtain ⟨p, hp, rfl⟩ := h.defined name d hd
  obtain ⟨e, he, hdeclared⟩ := h.declared p hp
  cases he.symm.trans hd
  exact ⟨p, hp, rfl, hdeclared⟩

theorem Coherent.name_of_collection (h : Coherent table f) {name : Text}
    (hd : ∃ target, table name = some (.collection target)) : Name name := by
  obtain ⟨_, hd⟩ := hd
  obtain ⟨p, -, rfl, hdeclared⟩ := h.declaredAs hd
  exact hdeclared.name

/-- The accessors that go when a property is defined anew are those of its definition. -/
theorem Coherent.mem_staleAccessors (h : Coherent table f) {property name : Text} :
    name ∈ staleAccessors f property ↔
      ∃ d, table property = some d ∧ name ∈ d.accessorNames property := by
  rw [staleAccessors]
  cases hp : f.findProperty? property with
  | some p =>
    have hnamed : p.name = property := by simpa using List.find?_some hp
    obtain ⟨d, hd, hdeclared⟩ := h.declared p (List.mem_of_find?_eq_some hp)
    subst hnamed
    simp only [Option.elim_some, hdeclared.mem_accessorNames, hd, Option.some.injEq,
      exists_eq_left']
  | none =>
    refine iff_of_false List.not_mem_nil ?_
    rintro ⟨d, hd, -⟩
    have hsome := f.findProperty?_isSome_iff.mpr (h.defined property d hd)
    rw [hp] at hsome
    cases hsome

/-- No accessor goes but those of the former definition. -/
theorem Coherent.notMem_staleAccessors (h : Coherent table f) {property key : Text} :
    key ∉ (staleAccessors f property).map lower ↔
      ∀ old, table property = some old → key ∉ (old.accessorNames property).map lower := by
  simp only [List.mem_map, h.mem_staleAccessors, not_exists, not_and]
  constructor
  · exact fun hall old hold name hname => hall name ⟨old, hold, hname⟩
  · rintro hall name ⟨old, hold, hname⟩
    exact hall old hold name hname

/-- The methods that there are, the constructor apart, once the accessors have been placed. -/
theorem Coherent.mem_placed (h : Coherent table f) {g : ClassFile} {property i : Text}
    {d : Definition} {collections : List Text}
    (hmethods : Put Method.key (constructorOf f.indent collections) f.methods g.methods)
    {m : Method} (hm : m.isConstructor = false) :
    m ∈ (placeMethods ((d.accessors property).map (·.method i)) (staleAccessors f property)
      g).methods ↔ (∃ a ∈ d.accessors property, m = a.method i) ∨ m ∈ f.methods ∧
        m.key ∉ (d.accessorNames property).map lower ∧
        ∀ old, table property = some old → m.key ∉ (old.accessorNames property).map lower := by
  have hne : m.key ≠ (constructorOf f.indent collections).key := by
    rw [key_constructorOf]
    exact fun heq => absurd (isConstructor_iff.mpr heq) (by simp [hm])
  have hne' : m ≠ constructorOf f.indent collections := fun heq => hne (heq ▸ rfl)
  rw [mem_placeMethods (hmethods.nodup h.methods) (d.nodup_accessors property i),
    hmethods.mem_iff h.methods, keys_accessors, h.notMem_staleAccessors,
    ← Definition.accessorNames]
  simp only [List.mem_map, hne, hne', false_or, ne_eq, not_false_eq_true, and_true, eq_comm]

/-- A class and what becomes of it when a property is defined anew: the members agree with the new
definition, and of its former methods those are left that neither definition generates. -/
structure Redefines (i : Text) (table : Definitions) (name : Text) (d : Definition)
    (f g : ClassFile) : Prop where
  coherent : Coherent (Function.update table name (some d)) g
  mem_methods : ∀ {m : Method}, m.isConstructor = false → (m ∈ g.methods ↔
    (∃ a ∈ d.accessors name, m = a.method i) ∨ m ∈ f.methods ∧
      m.key ∉ (d.accessorNames name).map lower ∧
      ∀ old, table name = some old → m.key ∉ (old.accessorNames name).map lower)

/-- **A property is defined anew**: its declaration and its accessors take the place of the former
ones, and the constructor makes the collections empty that there are now. -/
theorem Coherent.redefined (h : Coherent table f) {g : ClassFile} {p : Property} {d : Definition}
    {as : List Accessor} {collections : List Text} {i : Text} (hp : p.DeclaredAs d)
    (has : as = d.accessors p.name)
    (hregular : Regular (placeMethods (as.map (·.method i)) (staleAccessors f p.name) g))
    (hindent : g.indent = f.indent) (hproperties : Put Property.name p f.properties g.properties)
    (hmethods : Put Method.key (constructorOf f.indent collections) f.methods g.methods)
    (hnodup : collections.Nodup) (hcollections : ∀ name, name ∈ collections ↔
      ∃ target, Function.update table p.name (some d) name = some (.collection target)) :
    Redefines i table p.name d f
      (placeMethods (as.map (·.method i)) (staleAccessors f p.name) g) := by
  subst has
  have hnames := d.nodup_accessors p.name i
  obtain ⟨hframe, hsame⟩ := frame_placeMethods g ((d.accessors p.name).map (·.method i))
    (staleAccessors f p.name)
  have hother : ∀ {name}, name ≠ p.name → Function.update table p.name (some d) name = table name :=
    fun hne => Function.update_of_ne hne _ _
  refine ⟨⟨hregular, ?properties, ?methods, ?declared, ?defined, ?constructor, ?accessors⟩,
    h.mem_placed hmethods⟩
  case properties =>
    rw [hsame]
    exact hproperties.nodup h.properties
  case methods => exact nodup_placeMethods (hmethods.nodup h.methods) hnames
  case declared =>
    intro q hq
    rw [hsame, hproperties.mem_iff h.properties] at hq
    rcases hq with rfl | ⟨hq, hne⟩
    · exact ⟨d, Function.update_self _ _ _, hp⟩
    · rw [hother hne]
      exact h.declared q hq
  case defined =>
    intro name e he
    simp only [hsame, hproperties.mem_iff h.properties]
    by_cases hname : name = p.name
    · exact ⟨p, .inl rfl, hname.symm⟩
    · rw [hother hname] at he
      obtain ⟨q, hq, rfl⟩ := h.defined name e he
      exact ⟨q, .inr ⟨hq, hname⟩, rfl⟩
  case constructor =>
    refine ⟨collections, hnodup, hcollections,
      (mem_placeMethods (hmethods.nodup h.methods) hnames).mpr (.inr ⟨?_, ?_, ?_⟩)⟩
    · rw [← hframe.indent, hindent]
      exact (hmethods.mem_iff h.methods).mpr (.inl rfl)
    · rw [key_constructorOf, keys_accessors]
      exact d.constructor_notMem p.name
    · -- what goes are accessors, too
      rw [key_constructorOf, h.notMem_staleAccessors]
      exact fun old _ => old.constructor_notMem p.name
  case accessors =>
    intro m hm
    cases hc : m.isConstructor with
    | true => exact .inl rfl
    | false =>
      rw [h.mem_placed hmethods hc] at hm
      rcases hm with ⟨a, ha, rfl⟩ | ⟨hm, -, hgone⟩
      · exact .inr ⟨p.name, d, Function.update_self _ _ _, a, ha, i, rfl⟩
      · obtain ⟨name, e, he, a, ha, j, rfl⟩ := (h.accessors m hm).resolve_left (by simp [hc])
        refine .inr ⟨name, e, ?_, a, ha, j, rfl⟩
        rw [hother, he]
        -- the accessors of its former definition are gone
        rintro rfl
        exact hgone e he (List.mem_map_of_mem (List.mem_map_of_mem ha))

/-- The collections that there are when a property has been defined anew. -/
theorem isCollection_update {name other : Text} {d : Definition} :
    (∃ target, Function.update table name (some d) other = some (.collection target)) ↔
      other = name ∧ (∃ target, d = .collection target) ∨
        other ≠ name ∧ ∃ target, table other = some (.collection target) := by
  by_cases hname : other = name
  · subst hname
    simp
  · simp [hname]

/-- **Adding a field defines its property anew.** -/
theorem Coherent.fieldAdded (h : Coherent table f) {i name php : Text} (hi : IsIndent i)
    (hname : Name name) (hphp : IsFieldType php) (type : FieldType) (nullable : Bool) :
    Redefines i table name (.field (Render.nullableType php nullable)) f
      (fieldAdded i name type php nullable f) := by
  obtain ⟨collections, hnodup, hcollections, hmem⟩ := h.constructor
  obtain ⟨hframe, hsame⟩ := frame_dropCollectionInit f name
  refine h.redefined (declaredAs_fieldProperty hname hphp type nullable) rfl
    (h.regular.fieldAdded hi hname hphp type nullable)
    (hframe.trans (frame_placeProperty _ name _)).indent.symm ?_ ?_
    (hnodup.filter (· != name)) fun other => ?_
  · rw [← hsame]
    exact put_placeProperty rfl
  · rw [methods_placeProperty]
    exact put_dropCollectionInit h.regular.indent h.methods
      (fun p hp => (h.name_of_collection ((hcollections p).mp hp)).plain) hmem name
  · have hnot : ¬∃ target, Definition.field (Render.nullableType php nullable) =
        .collection target := by
      rintro ⟨_, he⟩
      cases he
    have hproperty : (fieldProperty name type php nullable).name = name := rfl
    rw [hproperty, isCollection_update, List.mem_filter, hcollections, bne_iff_ne, and_comm,
      or_iff_right fun hfield => hnot hfield.2]

/-- **Adding a relation defines its property anew.** -/
theorem Coherent.relationAdded (h : Coherent table f) {i property target : Text} {r : Relation}
    (hi : IsIndent i) (hproperty : Name property) (htarget : Capital target)
    (hother : ∀ o ∈ r.otherProperty, Plain o) (hjoin : ∀ j ∈ r.joinTable, j.IsPlain) :
    ∃ g, relationAdded i r property target f = .ok g ∧
      Redefines i table property (.ofRelation r.kind target) f g := by
  obtain ⟨collections, hnodup, hcollections, hmem⟩ := h.constructor
  have hframe := frame_placeProperty f property (relationProperty r property target)
  have hplaced : Put Property.name (relationProperty r property target) f.properties
      (placeProperty property (relationProperty r property target) f).properties :=
    put_placeProperty rfl
  have hmethods := methods_placeProperty (f := f) property (relationProperty r property target)
  have hkind : (∃ t, Definition.ofRelation r.kind target = .collection t) ↔
      r.kind.isCollection = true := by
    rw [Definition.ofRelation]
    cases r.kind.isCollection <;> simp
  obtain ⟨k, collections', hk, hput, hnodup', hmem'⟩ :=
    put_constructor (f := placeProperty property (relationProperty r property target) f)
      (hframe.indent ▸ h.regular.indent) (hmethods ▸ h.methods)
      (fun p hp => h.name_of_collection ((hcollections p).mp hp)) hnodup
      (by rwa [← hframe.indent, hmethods]) property r.kind.isCollection
  obtain ⟨hkept, hsame⟩ := frame_constructor _ hk
  obtain ⟨g, hg, hregular⟩ := h.regular.relationAdded hi hproperty htarget hother hjoin
  refine ⟨g, hg, ?_⟩
  rw [EntityScaffold.relationAdded, hk] at hg
  cases hg
  refine h.redefined (p := relationProperty r property target)
    (.relation hproperty htarget hother hjoin)
    (Definition.accessors_ofRelation r.kind property target).symm hregular
    (hframe.trans hkept).indent.symm (hsame ▸ hplaced) ?_ hnodup' fun other => ?_
  · rw [← hmethods, hframe.indent]
    exact hput
  · have hname : (relationProperty r property target).name = property := rfl
    rw [hmem', hname, isCollection_update, hkind, hcollections]

end

end EntityScaffold
