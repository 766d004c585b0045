import EntityScaffold.Proofs.Rendered.Constructor
import EntityScaffold.Proofs.Source.Keyed

/-!
# What the edits come to

An edit with plain names that are accepted does not fail but for a constructor that cannot be read:
it comes to a change of the class that can be written down.

* `fieldAdded`, `relationAdded` — the changes.
* `run_addField`, `run_addRelation` — the edits make them.
* `Alike.fieldAdded`, `Alike.relationAdded` — the changes do not depend on gaps.
* `put_placeProperty` — a property takes the place of the one with its name.
* `findProperty?_fieldAdded`, `findProperty?_relationAdded` — what is declared then.
-/

set_option autoImplicit false

namespace EntityScaffold

open Text Source

/-! ## Running edits -/

namespace Edit

variable {α β : Type}

theorem run_bind (e : Edit α) (k : α → Edit β) (d : Desk) :
    (e >>= k).run d = match e.run d with
      | (.ok a, d') => (k a).run d'
      | (.error x, d') => (.error x, d') := by
  change (ExceptT.bindCont k (e.run d).1).run (e.run d).2 = _
  cases e.run d with
  | mk result d' => cases result <;> rfl

theorem run_pure (a : α) (d : Desk) : (pure a : Edit α).run d = (.ok a, d) := rfl

theorem run_ite (c : Prop) [Decidable c] (e e' : Edit α) (d : Desk) :
    (if c then e else e').run d = if c then e.run d else e'.run d := by
  split <;> rfl

theorem run_file (d : Desk) : file.run d = (.ok d.file, d) := rfl

theorem run_change (f : ClassFile → ClassFile) (d : Desk) :
    (change f).run d = (.ok (), { d with file := f d.file }) := rfl

theorem run_record (r : Log.Record) (d : Desk) :
    (record r).run d = (.ok (), { d with log := d.log ++ [r] }) := rfl

theorem run_parsed (r : Except ParseError α) (d : Desk) :
    (parsed r).run d = (r.mapError .unparsable, d) := by
  cases r <;> rfl

end Edit

/-! ## Fields -/

open Edit

/-- The class with a scalar field. -/
def fieldAdded (i name : Text) (type : FieldType) (php : Text) (nullable : Bool) (f : ClassFile) :
    ClassFile :=
  placeMethods
    ((fieldAccessors name (Render.nullableType php nullable)).map (·.method i))
    (staleAccessors f name)
    (placeProperty name (fieldProperty name type php nullable) (dropCollectionInit name f))

section

variable {i name : Text} {type : FieldType} {phpType : Option Text} {nullable : Bool}

/-- A name that is not accepted leaves the class as it is. -/
theorem run_addField_refused (h : isIdentifier name = false) (d : Desk) :
    (addField i name type phpType nullable).run d =
      (.error (.refused (.invalidFieldName name)), d) := by
  rw [addField, h]
  rfl

/-- **A field with a plain name is added.** -/
theorem run_addField (hi : IsIndent i) (hname : isIdentifier name = true) (hplain : Plain name)
    (hphp : IsFieldType ((given? phpType).getD type.phpType)) (d : Desk) :
    ∃ log, (addField i name type phpType nullable).run d = (.ok (),
      ⟨fieldAdded i name type ((given? phpType).getD type.phpType) nullable d.file, log⟩) := by
  have hn := name_of_isIdentifier hplain hname
  obtain ⟨rows, htidy⟩ := tidy_fieldProperty hn hphp type nullable
  have hproperty : propertyOf (Render.fieldProperty name type.name
      ((given? phpType).getD type.phpType) nullable) = .ok _ := propertyOf_of_tidy htidy
  have hmethods : (Render.fieldAccessors i name ((given? phpType).getD type.phpType)
      nullable).mapM methodOf = .ok ((fieldAccessors name (Render.nullableType
        ((given? phpType).getD type.phpType) nullable)).map (·.method i)) := by
    rw [render_fieldAccessors]
    refine Accessor.mapM_methodOf hi fun a ha => ?_
    simp only [fieldAccessors, List.mem_cons, List.not_mem_nil, or_false] at ha
    rcases ha with rfl | rfl <;> exact ⟨hplain, (hphp nullable).1⟩
  simp only [addField, hname, hproperty, hmethods, Bool.not_true, Bool.false_eq_true, if_false,
    run_bind, run_file, run_parsed, run_change, run_record, Except.mapError]
  exact ⟨_, rfl⟩

/-- An edit that succeeds in adding a field comes to the change. -/
theorem added_of_addField (hi : IsIndent i) (hplain : Plain name)
    (hphp : IsFieldType ((given? phpType).getD type.phpType)) {d : Desk}
    (h : ((addField i name type phpType nullable).run d).1 = .ok ()) :
    isIdentifier name = true ∧ ((addField i name type phpType nullable).run d).2.file =
      fieldAdded i name type ((given? phpType).getD type.phpType) nullable d.file := by
  cases hname : isIdentifier name with
  | false =>
    rw [run_addField_refused hname] at h
    cases h
  | true =>
    obtain ⟨log, hrun⟩ : ∃ log, (addField i name type phpType nullable).run d = (.ok (),
        ⟨fieldAdded i name type ((given? phpType).getD type.phpType) nullable d.file, log⟩) :=
      run_addField hi hname hplain hphp d
    rw [hrun]
    exact ⟨rfl, rfl⟩

/-- A name that is not accepted leaves the class as it is, whatever the database type. -/
theorem run_addFieldOf_refused {value : Value} (h : isIdentifier name = false) (d : Desk) :
    (addFieldOf i name value phpType nullable).run d =
      (.error (.refused (.invalidFieldName name)), d) := by
  rw [addFieldOf, h]
  rfl

/-- So does a value that names no database type. -/
theorem run_addFieldOf_unknown {value : Value} {e : Failure} (h : isIdentifier name = true)
    (he : requireFieldType value = .error e) (d : Desk) :
    (addFieldOf i name value phpType nullable).run d = (.error e, d) := by
  rw [addFieldOf, h, he]
  rfl

theorem addFieldOf_eq {value : Value} (h : isIdentifier name = true)
    (ht : requireFieldType value = .ok type) :
    addFieldOf i name value phpType nullable = addField i name type phpType nullable := by
  rw [addFieldOf, h, ht]
  rfl

end

/-! ## Relations -/

/-- The class in whose constructor the collection is made empty, unless it is assigned to. -/
def statementEnsured (property : Text) (f : ClassFile) : Except ParseError ClassFile :=
  match f.constructor? with
  | none => .ok f
  | some m =>
    match m.assigned with
    | .error e => .error e
    | .ok names =>
      if names.contains property then .ok f
      else (m.addStatement (Render.collectionInit property) f.indent).map fun m =>
        f.replaceMethod constructorName (.method m)

/-- The class with a constructor that makes the collection empty. -/
def collectionEnsured (property : Text) (f : ClassFile) : Except ParseError ClassFile :=
  statementEnsured property f.withConstructor

theorem run_ensureCollectionInit (property : Text) (d : Desk) :
    ∃ log, (ensureCollectionInit property).run d = match collectionEnsured property d.file with
      | .ok f => (.ok (), ⟨f, log⟩)
      | .error e => (.error (.unparsable e), ⟨d.file.withConstructor, log⟩) := by
  obtain ⟨f, log⟩ := d
  -- either way what is left is the same work on the class with a constructor
  obtain ⟨g, log, hg, hrun⟩ : ∃ g log', g = f.withConstructor ∧
      (ensureCollectionInit property).run ⟨f, log⟩ =
        (match g.constructor? with
          | none => pure ()
          | some m => do
            if (← parsed m.assigned).contains property then return
            let m ← parsed (m.addStatement (Render.collectionInit property) (← file).indent)
            change fun f => f.replaceMethod constructorName (.method m) : Edit Unit).run
          ⟨g, log'⟩ := by
    simp only [ensureCollectionInit, run_bind, run_file, run_ite, run_change, run_record]
    cases hc : f.constructor? with
    | none => exact ⟨_, _, rfl, rfl⟩
    | some m =>
      have hsame : f.withConstructor = f := by
        rw [ClassFile.withConstructor, hc]
        rfl
      refine ⟨f, log, hsame.symm, ?_⟩
      rw [hc]
      rfl
  rw [hrun]
  simp only [collectionEnsured, ← hg, statementEnsured]
  cases g.constructor? with
  | none => exact ⟨_, rfl⟩
  | some m =>
    simp only [run_bind, run_parsed, run_file, run_ite, run_change, run_pure]
    cases m.assigned with
    | error e => exact ⟨_, rfl⟩
    | ok names =>
      simp only [Except.mapError]
      cases names.contains property with
      | true => exact ⟨_, rfl⟩
      | false =>
        simp only [Bool.false_eq_true, if_false]
        cases m.addStatement (Render.collectionInit property) g.indent <;> exact ⟨_, rfl⟩

def relationAccessors (kind : RelationKind) (property target : Text) : List Accessor :=
  if kind.isCollection then collectionAccessors property target
  else referenceAccessors property target

/-- The class with a relation. -/
def relationAdded (i : Text) (r : Relation) (property target : Text) (f : ClassFile) :
    Except ParseError ClassFile :=
  let placed := placeProperty property (relationProperty r property target) f
  (if r.kind.isCollection then collectionEnsured property placed
    else .ok (dropCollectionInit property placed)).map
    (placeMethods ((relationAccessors r.kind property target).map (·.method i))
      (staleAccessors f property))

/-- Whether the names in a relation are plain. -/
structure Relation.IsPlain (r : Relation) (target : Text) : Prop where
  target : Plain target
  property : ∀ p ∈ r.property, Plain p
  other : ∀ o ∈ r.otherProperty, Plain o
  joinTable : ∀ j ∈ r.joinTable, j.IsPlain

theorem isPlain_relationAccessors {kind : RelationKind} {property target : Text}
    (hproperty : Plain property) (htarget : Capital target) :
    ∀ a ∈ relationAccessors kind property target, a.IsPlain := by
  intro a ha
  rw [relationAccessors] at ha
  split at ha
  · simp only [collectionAccessors, List.mem_cons, List.not_mem_nil, or_false] at ha
    rcases ha with rfl | rfl | rfl
    exacts [⟨hproperty, htarget⟩, ⟨hproperty, htarget⟩, ⟨hproperty, isType_array⟩]
  · simp only [referenceAccessors, List.mem_cons, List.not_mem_nil, or_false] at ha
    rcases ha with rfl | rfl | rfl
    exacts [⟨hproperty, htarget.isType_reference⟩, ⟨hproperty, htarget.isType_reference⟩,
      hproperty]

theorem eq_some_of_given? {o : Option Text} {t : Text} (h : given? o = some t) : o = some t := by
  rcases o with _ | _ | ⟨c, o⟩
  · cases h
  · cases h
  · exact h

theorem given?_given {o : Option Text} {t : Text} (h : given? o = some t) :
    given? (some t) = some t := by
  rwa [eq_some_of_given? h] at h

section

variable {i property : Text} {r : Relation} {targetName : Option Text}

/-- A target that is not accepted leaves the class as it is. -/
theorem run_addRelation_target (h : isClassName ((given? targetName).getD r.targetName) = false)
    (d : Desk) : (addRelation i r targetName).run d =
      (.error (.refused (.invalidTargetName ((given? targetName).getD r.targetName))), d) := by
  simp only [addRelation, h, Bool.not_false, if_true]
  rfl

/-- A property that is not accepted leaves the class as it is. -/
theorem run_addRelation_property (hproperty : ∀ p ∈ given? r.property, isIdentifier p = false)
    (htarget : isClassName ((given? targetName).getD r.targetName) = true) (d : Desk) :
    (addRelation i r targetName).run d =
      (.error (.refused (.invalidPropertyName r.property)), d) := by
  cases hp : given? r.property with
  | none =>
    simp only [addRelation, hp, htarget, Bool.not_true, Bool.false_eq_true, if_false]
    rfl
  | some p =>
    simp only [addRelation, hp, htarget, hproperty p hp, Bool.not_true, Bool.not_false,
      Bool.false_eq_true, if_false, if_true]
    rfl

/-- **A relation with plain names is added**, unless the constructor cannot be read. -/
theorem run_addRelation (hi : IsIndent i) (hproperty : given? r.property = some property)
    (hname : isIdentifier property = true)
    (htarget : isClassName ((given? targetName).getD r.targetName) = true)
    (hplain : r.IsPlain ((given? targetName).getD r.targetName)) (d : Desk) :
    ∃ d', (addRelation i r targetName).run d = d' ∧
      match relationAdded i r property ((given? targetName).getD r.targetName) d.file with
      | .ok f => ∃ log, d' = (.ok (), ⟨f, log⟩)
      | .error e => d'.1 = .error (.unparsable e) := by
  have hplainProperty : Plain property := hplain.property _ (eq_some_of_given? hproperty)
  have hn := name_of_isIdentifier hplainProperty hname
  have hcapital := capital_of_isClassName hplain.target htarget
  obtain ⟨rows, htidy⟩ := tidy_relationProperty (r := r) hn hcapital hplain.other hplain.joinTable
  have hfragment : propertyOf (relationText r property ((given? targetName).getD r.targetName)) =
      .ok _ := propertyOf_of_tidy htidy
  have hmethods : (if r.kind.isCollection then
        Render.collectionAccessors i property ((given? targetName).getD r.targetName)
      else Render.referenceAccessors i property ((given? targetName).getD r.targetName)).mapM
        methodOf = .ok ((relationAccessors r.kind property
          ((given? targetName).getD r.targetName)).map (·.method i)) := by
    have hrender : (if r.kind.isCollection then
        Render.collectionAccessors i property ((given? targetName).getD r.targetName)
      else Render.referenceAccessors i property ((given? targetName).getD r.targetName)) =
        (relationAccessors r.kind property ((given? targetName).getD r.targetName)).map
          (Accessor.text i) := by
      rw [relationAccessors]
      split
      · exact render_collectionAccessors _ _ _
      · exact render_referenceAccessors _ _ _
    rw [hrender]
    exact Accessor.mapM_methodOf hi (isPlain_relationAccessors hplainProperty hcapital)
  refine ⟨_, rfl, ?_⟩
  simp only [addRelation, hproperty, htarget, hname, hfragment, hmethods, Bool.not_true,
    Bool.false_eq_true, if_false, run_bind, run_file, run_parsed, run_change, Except.mapError,
    run_ite, relationAdded]
  cases r.kind.isCollection with
  | false => exact ⟨_, rfl⟩
  | true =>
    simp only [if_true]
    obtain ⟨log, hrun⟩ := run_ensureCollectionInit property
      ⟨placeProperty property (relationProperty r property ((given? targetName).getD r.targetName))
        d.file, d.log⟩
    simp only [hrun]
    cases collectionEnsured property (placeProperty property
        (relationProperty r property ((given? targetName).getD r.targetName)) d.file) with
    | ok f => exact ⟨_, rfl⟩
    | error e => rfl

/-- An edit that succeeds in adding a relation comes to the change. -/
theorem added_of_addRelation (hi : IsIndent i)
    (hplain : r.IsPlain ((given? targetName).getD r.targetName)) {d : Desk}
    (h : ((addRelation i r targetName).run d).1 = .ok ()) :
    ∃ property, given? r.property = some property ∧ isIdentifier property = true ∧
      isClassName ((given? targetName).getD r.targetName) = true ∧
      relationAdded i r property ((given? targetName).getD r.targetName) d.file =
        .ok ((addRelation i r targetName).run d).2.file := by
  cases htarget : isClassName ((given? targetName).getD r.targetName) with
  | false =>
    rw [run_addRelation_target htarget] at h
    cases h
  | true =>
    by_cases hproperty : ∃ p, given? r.property = some p ∧ isIdentifier p = true
    · obtain ⟨property, hproperty, hname⟩ := hproperty
      refine ⟨property, hproperty, hname, rfl, ?_⟩
      obtain ⟨d', hrun, hadded⟩ := run_addRelation hi hproperty hname htarget hplain d
      rw [hrun] at h ⊢
      cases hresult : relationAdded i r property ((given? targetName).getD r.targetName) d.file with
      | error e =>
        rw [hresult] at hadded
        rw [hadded] at h
        cases h
      | ok g =>
        rw [hresult] at hadded
        obtain ⟨log, rfl⟩ := hadded
        rfl
    · rw [run_addRelation_property (fun p hp => ?_) htarget] at h
      · cases h
      · rw [← Bool.not_eq_true]
        exact fun hname => hproperty ⟨p, hp, hname⟩

end

/-! ## The changes do not depend on gaps -/

/-- Classes that differ in their gaps only, or one and the same error. -/
def AlikeResults : Except ParseError ClassFile → Except ParseError ClassFile → Prop
  | .ok f, .ok g => Alike f g
  | .error e, .error e' => e = e'
  | _, _ => False

section

variable {f g : ClassFile}

theorem Source.Alike.placeProperty (h : Alike f g) (name : Text) (p : Property) :
    Alike (placeProperty name p f) (placeProperty name p g) := by
  rw [Edit.placeProperty, Edit.placeProperty, h.findProperty?_eq]
  split
  · exact h.replaceProperty name (.property p)
  · exact h.insertProperty p

theorem Source.Alike.placeMethod (h : Alike f g) (m : Method) :
    Alike (placeMethod f m) (placeMethod g m) := by
  rw [Edit.placeMethod, Edit.placeMethod, h.findMethod?_eq]
  split
  · exact h.replaceMethod m.name (.method m)
  · exact h.insertMethod m

theorem Source.Alike.placeMethods (h : Alike f g) (ms : List Method) (stale : List Text) :
    Alike (placeMethods ms stale f) (placeMethods ms stale g) := by
  have hremove : ∀ (names : List Text) {f g : ClassFile}, Alike f g →
      Alike (names.foldl ClassFile.removeMethod f) (names.foldl ClassFile.removeMethod g) := by
    intro names
    induction names with
    | nil => exact id
    | cons name names ih => exact fun h => ih (h.removeMethod name)
  have hplace : ∀ (ms : List Method) {f g : ClassFile}, Alike f g →
      Alike (ms.foldl Edit.placeMethod f) (ms.foldl Edit.placeMethod g) := by
    intro ms
    induction ms with
    | nil => exact id
    | cons m ms ih => exact fun h => ih (h.placeMethod m)
  exact hplace ms (hremove _ h)

theorem Source.Alike.staleAccessors_eq (h : Alike f g) (name : Text) :
    staleAccessors f name = staleAccessors g name := by
  rw [staleAccessors, staleAccessors, h.findProperty?_eq]

theorem Source.Alike.dropCollectionInit (h : Alike f g) (property : Text) :
    Alike (dropCollectionInit property f) (dropCollectionInit property g) := by
  have hsame : f.constructor? = g.constructor? := h.findMethod?_eq constructorName
  rw [Edit.dropCollectionInit, Edit.dropCollectionInit, hsame]
  split
  · exact h.replaceMethod constructorName _
  · exact h

theorem Source.Alike.statementEnsured (h : Alike f g) (property : Text) :
    AlikeResults (statementEnsured property f) (statementEnsured property g) := by
  have hsame : f.constructor? = g.constructor? := h.findMethod?_eq constructorName
  rw [EntityScaffold.statementEnsured, EntityScaffold.statementEnsured, hsame, h.indent]
  cases g.constructor? with
  | none => exact h
  | some m =>
    simp only
    cases m.assigned with
    | error e => exact (rfl : e = e)
    | ok names =>
      simp only
      cases names.contains property with
      | true => exact h
      | false =>
        simp only [Bool.false_eq_true, if_false]
        cases m.addStatement (Render.collectionInit property) g.indent with
        | error e => exact (rfl : e = e)
        | ok m => exact h.replaceMethod constructorName (.method m)

theorem Source.Alike.fieldAdded (h : Alike f g) (i name : Text) (type : FieldType) (php : Text)
    (nullable : Bool) :
    Alike (fieldAdded i name type php nullable f) (fieldAdded i name type php nullable g) := by
  rw [EntityScaffold.fieldAdded, EntityScaffold.fieldAdded, h.staleAccessors_eq]
  exact ((h.dropCollectionInit name).placeProperty name _).placeMethods _ _

theorem Source.Alike.relationAdded (h : Alike f g) (i : Text) (r : Relation)
    (property target : Text) :
    AlikeResults (relationAdded i r property target f) (relationAdded i r property target g) := by
  have hplaced := h.placeProperty property (relationProperty r property target)
  rw [EntityScaffold.relationAdded, EntityScaffold.relationAdded, h.staleAccessors_eq]
  cases r.kind.isCollection with
  | false => exact (hplaced.dropCollectionInit property).placeMethods _ _
  | true =>
    have hensured := hplaced.withConstructor.statementEnsured property
    simp only [if_true, collectionEnsured]
    revert hensured
    generalize EntityScaffold.statementEnsured property (Edit.placeProperty property
      (relationProperty r property target) f).withConstructor = x
    generalize EntityScaffold.statementEnsured property (Edit.placeProperty property
      (relationProperty r property target) g).withConstructor = y
    intro hensured
    cases x <;> cases y
    · exact hensured
    · exact hensured.elim
    · exact hensured.elim
    · exact Alike.placeMethods hensured _ _

end

/-! ## What the changes leave as it is -/

section

variable (f : ClassFile)

theorem frame_placeProperty (name : Text) (p : Property) : Frame f (placeProperty name p f) := by
  rw [placeProperty]
  split <;> exact ⟨rfl, rfl, rfl, rfl⟩

theorem frame_placeMethod (m : Method) : Frame f (placeMethod f m) := by
  rw [placeMethod]
  split <;> exact ⟨rfl, rfl, rfl, rfl⟩

theorem properties_placeMethod (m : Method) : (placeMethod f m).properties = f.properties := by
  rw [placeMethod]
  split
  · exact f.properties_replaceMethod m.name m
  · exact f.properties_insertMethod m

variable {f} in
/-- What the removal of each stale method and the placing of each method keeps is kept by all of
them. -/
theorem placeMethods_induction {P : ClassFile → Prop} {ms : List Method} {stale : List Text}
    (h : P f) (hremove : ∀ name ∈ stale, ∀ g, P g → P (g.removeMethod name))
    (hplace : ∀ m ∈ ms, ∀ g, P g → P (placeMethod g m)) : P (placeMethods ms stale f) := by
  refine List.foldlRecOn ms placeMethod ?_ fun g hg m hm => hplace m hm g hg
  refine List.foldlRecOn _ ClassFile.removeMethod h fun g hg name hname => ?_
  exact hremove name (List.mem_filter.mp hname).1 g hg

/-- Removing methods and placing others changes neither the frame nor the properties. -/
theorem frame_placeMethods (ms : List Method) (stale : List Text) :
    Frame f (placeMethods ms stale f) ∧ (placeMethods ms stale f).properties = f.properties := by
  refine placeMethods_induction (P := fun g => Frame f g ∧ g.properties = f.properties)
    ⟨.refl f, rfl⟩ (fun name _ g hg => ?_) fun m _ g hg => ?_
  · have hframe : Frame g (g.removeMethod name) := ⟨rfl, rfl, rfl, rfl⟩
    exact ⟨hg.1.trans hframe, (g.properties_removeMethod name).trans hg.2⟩
  · exact ⟨hg.1.trans (frame_placeMethod g m), (properties_placeMethod g m).trans hg.2⟩

theorem frame_dropCollectionInit (property : Text) :
    Frame f (dropCollectionInit property f) ∧
      (dropCollectionInit property f).properties = f.properties := by
  rw [dropCollectionInit]
  split
  · exact ⟨⟨rfl, rfl, rfl, rfl⟩, f.properties_replaceMethod constructorName _⟩
  · exact ⟨.refl f, rfl⟩

theorem frame_withConstructor : Frame f f.withConstructor := by
  rw [ClassFile.withConstructor]
  split <;> exact ⟨rfl, rfl, rfl, rfl⟩

theorem frame_statementEnsured {property : Text} {g : ClassFile}
    (h : statementEnsured property f = .ok g) : Frame f g ∧ g.properties = f.properties := by
  rw [statementEnsured] at h
  split at h
  · cases h
    exact ⟨.refl f, rfl⟩
  · split at h
    · cases h
    · split at h
      · cases h
        exact ⟨.refl f, rfl⟩
      · rename_i m _ _ _ _ _
        cases hm : m.addStatement (Render.collectionInit property) f.indent with
        | error e =>
          rw [hm] at h
          cases h
        | ok k =>
          rw [hm] at h
          cases h
          exact ⟨⟨rfl, rfl, rfl, rfl⟩, f.properties_replaceMethod constructorName k⟩

/-- What a relation does to the constructor. -/
theorem frame_constructor {property : Text} {isCollection : Bool} {g : ClassFile}
    (h : (if isCollection then collectionEnsured property f
      else .ok (dropCollectionInit property f)) = .ok g) :
    Frame f g ∧ g.properties = f.properties := by
  split at h
  · obtain ⟨hframe, hproperties⟩ := frame_statementEnsured _ h
    exact ⟨(frame_withConstructor f).trans hframe,
      hproperties.trans f.properties_withConstructor⟩
  · cases h
    exact frame_dropCollectionInit f property

/-! ## The property that is declared -/

variable {f}

/-- **A property takes the place of the one with its name.** -/
theorem put_placeProperty {name : Text} {p : Property} (hp : p.name = name) :
    Put Property.name p f.properties (placeProperty name p f).properties := by
  subst hp
  rw [placeProperty]
  split
  · rename_i h
    exact f.put_replaceProperty (f.findProperty?_isSome_iff.mp h)
  · rename_i h
    rw [ClassFile.findProperty?_isSome_iff] at h
    exact f.put_insertProperty fun q hq heq => h ⟨q, hq, heq⟩

theorem findProperty?_congr {f g : ClassFile} (h : g.properties = f.properties) (name : Text) :
    g.findProperty? name = f.findProperty? name := by
  rw [ClassFile.findProperty?, ClassFile.findProperty?, h]

/-- **After a field has been added it is declared, and the other properties stay.** -/
theorem findProperty?_fieldAdded (i name : Text) (type : FieldType) (php : Text) (nullable : Bool)
    (other : Text) :
    (fieldAdded i name type php nullable f).findProperty? other =
      if other = name then some (fieldProperty name type php nullable)
      else f.findProperty? other := by
  have hplaced : Put Property.name (fieldProperty name type php nullable) _ (placeProperty name
      (fieldProperty name type php nullable) (dropCollectionInit name f)).properties :=
    put_placeProperty rfl
  rw [(frame_dropCollectionInit f name).2] at hplaced
  rw [fieldAdded, findProperty?_congr (frame_placeMethods _ _ _).2]
  split
  · rename_i h
    rw [h]
    exact hplaced.find?_self
  · rename_i h
    exact hplaced.find?_of_ne h

/-- **After a relation has been added it is declared, and the other properties stay.** -/
theorem findProperty?_relationAdded {i : Text} {r : Relation} {property target : Text}
    {g : ClassFile} (h : relationAdded i r property target f = .ok g) (other : Text) :
    g.findProperty? other =
      if other = property then some (relationProperty r property target)
      else f.findProperty? other := by
  -- only the placing of the property changes properties
  have hkey : g.properties =
      (placeProperty property (relationProperty r property target) f).properties := by
    rw [relationAdded] at h
    cases hchanged : (if r.kind.isCollection then
        collectionEnsured property (placeProperty property (relationProperty r property target) f)
      else .ok (dropCollectionInit property
        (placeProperty property (relationProperty r property target) f))) with
    | error e =>
      rw [hchanged] at h
      cases h
    | ok k =>
      rw [hchanged] at h
      cases h
      rw [(frame_placeMethods _ _ _).2, (frame_constructor _ hchanged).2]
  have hplaced : Put Property.name (relationProperty r property target) f.properties
      (placeProperty property (relationProperty r property target) f).properties :=
    put_placeProperty rfl
  rw [findProperty?_congr hkey]
  split
  · rename_i hother
    rw [hother]
    exact hplaced.find?_self
  · rename_i hother
    exact hplaced.find?_of_ne hother

end

end EntityScaffold
