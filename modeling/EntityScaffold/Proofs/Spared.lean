import EntityScaffold.Proofs.Rendered.Signatures
import EntityScaffold.Proofs.Repeated

/-!
# What a call leaves alone

A call that succeeds touches one property, the accessors of what it was and of what it becomes, and
the constructor.  Everything else in the class stays as it is written and where it stands, whoever
has written it, and whatever types and arguments the call is given.

* `Call.Prepares` — what a call makes of the property and the constructor; `Call.of_edit`: nothing
  else but the placing of accessors comes to it.
* `Revised` — what may become of a constructor.
* `Call.spares_others` — the members that a call leaves alone, and the constructor.
* `Call.constructor_of_single` — what becomes of the constructor where no collection is defined.
-/

set_option autoImplicit false

namespace EntityScaffold

open Text Source Edit

/-! ## Lists with an element changed -/

theorem sublist_replaceFirst (p : Member → Bool) (new : Member) (ms : List Member) :
    (ms.eraseP p).Sublist (replaceFirst p new ms) := by
  induction ms with
  | nil => exact .slnil
  | cons m ms ih =>
    rw [List.eraseP_cons, replaceFirst]
    cases p m with
    | true => exact List.sublist_cons_self new ms
    | false => exact ih.cons_cons m

theorem sublist_of_split {new : Member} {ms ms' s t : List Member} (hms : ms = s ++ t)
    (hms' : ms' = s ++ new :: t) : ms.Sublist ms' := by
  rw [hms, hms']
  exact (List.sublist_cons_self new t).append_left s

/-! ## The steps of a call -/

section

variable {f g : ClassFile} {property : Text}

/-- Only the property of that name goes when another is put in its place. -/
theorem sublist_placeProperty (name : Text) (p : Property) (f : ClassFile) :
    (f.members.eraseP (·.isPropertyNamed name)).Sublist (placeProperty name p f).members := by
  rw [placeProperty]
  split
  · rw [f.members_replaceProperty]
    exact sublist_replaceFirst _ _ _
  · obtain ⟨s, t, hms, hnew⟩ := insertBefore_split (.property p) f.members
    rw [f.members_insertProperty]
    exact List.eraseP_sublist.trans (sublist_of_split hms hnew)

theorem sublist_replaceConstructor (m : Method) (f : ClassFile) :
    (f.members.eraseP (·.isMethodNamed constructorName)).Sublist
      (f.replaceMethod constructorName (.method m)).members := by
  rw [f.members_replaceMethod]
  exact sublist_replaceFirst _ _ _

/-- Only the constructor goes when a statement is taken out of it. -/
theorem sublist_dropCollectionInit (property : Text) (f : ClassFile) :
    (f.members.eraseP (·.isMethodNamed constructorName)).Sublist
      (dropCollectionInit property f).members := by
  rw [dropCollectionInit]
  split
  · exact sublist_replaceConstructor _ f
  · exact List.eraseP_sublist

theorem sublist_collectionEnsured (h : collectionEnsured property f = .ok g) :
    (f.members.eraseP (·.isMethodNamed constructorName)).Sublist g.members := by
  have hwith : f.members.Sublist f.withConstructor.members := by
    cases hc : f.constructor? with
    | some m =>
      rw [ClassFile.withConstructor, hc]
      exact .refl _
    | none =>
      obtain ⟨s, t, hms, hnew⟩ := insertBefore_split (.method emptyConstructor) f.members
      rw [f.members_withConstructor hc]
      exact sublist_of_split hms hnew
  rcases of_statementEnsured h with rfl | ⟨m, k, -, -, rfl⟩
  · exact List.eraseP_sublist.trans hwith
  · exact (hwith.eraseP).trans (sublist_replaceConstructor k _)

end

/-! ## The constructor -/

/-- The method without the lines that come to the statement. -/
def Source.Method.without (m : Method) (statement : Text) : Method :=
  { m with body := m.body.map fun body => ofLines ((lines body).filter (strip · != statement)) }

/-- What may become of a constructor: it stays, it loses the lines that make a collection empty, or
it gets such a line at its end. -/
inductive Revised (property indent : Text) (m : Method) : Method → Prop where
  | kept : Revised property indent m m
  | dropped : Revised property indent m (m.without (Render.collectionInit property))
  | added {body : Text} (h : m.body = some body) : Revised property indent m
      { m with body := some (stripEnd body ++ "\n" ++ indent ++
        Render.collectionInit property ++ "\n") }

section

variable {f g : ClassFile} {property : Text}

theorem dropStatement?_getD (m : Method) {statement : Text} (hne : statement ≠ []) :
    (m.dropStatement? statement).getD m = m.without statement := by
  have hsame : ∀ body, m.body = some body →
      ((lines body).filter fun line => strip line != statement) = lines body →
      m = m.without statement := by
    intro body hbody hkept
    rw [Method.without, hbody, Option.map_some, hkept, ofLines_lines, ← hbody]
  rw [Method.dropStatement?]
  split
  · rename_i hbody
    rw [Method.without, hbody, Option.map_none, ← hbody]
    rfl
  · rename_i hbody
    refine hsame [] hbody (List.filter_eq_self.mpr fun l hl => ?_)
    rw [List.mem_singleton.mp hl]
    exact bne_iff_ne.mpr (Ne.symm hne)
  · rename_i body _ hbody
    dsimp only
    split
    · rename_i hlength
      exact hsame body hbody (List.filter_sublist.eq_of_length hlength)
    · rw [Method.without, hbody]
      rfl

/-- **The constructor loses the lines that make the collection empty**, and nothing else. -/
theorem constructor?_dropCollectionInit (property : Text) (f : ClassFile) :
    (dropCollectionInit property f).constructor? =
      f.constructor?.map (·.without (Render.collectionInit property)) := by
  have hwithout := fun m : Method =>
    dropStatement?_getD m (collectionInit_ne_nil property)
  cases hm : f.constructor? with
  | none =>
    rw [dropCollectionInit, hm]
    exact hm
  | some m =>
    rw [dropCollectionInit, hm, Option.bind_some, Option.map_some, ← hwithout]
    cases hk : m.dropStatement? (Render.collectionInit property) with
    | none => exact hm
    | some k =>
      have hkey : m.key = constructorName := key_constructor? hm
      obtain ⟨body, -, rfl⟩ := of_dropStatement? hk
      exact constructor?_replaceMethod hm hkey

/-- **A class in which a collection is made empty** has its constructor, or a new one, for that. -/
theorem revised_collectionEnsured (h : collectionEnsured property f = .ok g) :
    ∃ k, g.constructor? = some k ∧
      Revised property f.indent (f.constructor?.getD emptyConstructor) k := by
  rcases of_statementEnsured h with rfl | ⟨m, k, hm, hk, rfl⟩
  · exact ⟨_, constructor?_withConstructor, .kept⟩
  · have hkey : m.key = constructorName := key_constructor? hm
    obtain ⟨body, hbody, rfl⟩ := of_addStatement hk
    refine ⟨_, constructor?_replaceMethod hm hkey, ?_⟩
    rw [constructor?_withConstructor] at hm
    rw [Option.some.inj hm, ← (frame_withConstructor f).indent]
    exact .added hbody

end

/-! ## What a call makes of a class -/

namespace Call

/-- What a call makes of the property and the constructor of a class, before the accessors are
placed; there is one case for each sort of definition. -/
inductive Prepares (property : Text) (f : ClassFile) : Definition → ClassFile → Prop where
  | field (type : Text) (p : Property) :
    Prepares property f (.field type) (placeProperty property p (dropCollectionInit property f))
  | reference (target : Text) (p : Property) :
    Prepares property f (.reference target)
      (dropCollectionInit property (placeProperty property p f))
  | collection (target : Text) (p : Property) {g : ClassFile}
      (h : collectionEnsured property (placeProperty property p f) = .ok g) :
    Prepares property f (.collection target) g

section

variable {f g : ClassFile} {property : Text} {definition : Definition}

/-- The members beside the property and the constructor stay. -/
theorem Prepares.sublist (h : Prepares property f definition g) :
    ((f.members.eraseP (·.isPropertyNamed property)).eraseP
      (·.isMethodNamed constructorName)).Sublist g.members := by
  have hcomm : (f.members.eraseP (·.isPropertyNamed property)).eraseP
      (·.isMethodNamed constructorName) =
        (f.members.eraseP (·.isMethodNamed constructorName)).eraseP
          (·.isPropertyNamed property) := by
    refine List.eraseP_comm fun m _ => ?_
    cases m with
    | property p => exact .inr Bool.false_ne_true
    | method k => exact .inl Bool.false_ne_true
    | verbatim t => exact .inl Bool.false_ne_true
  cases h with
  | field type p =>
    rw [hcomm]
    exact (sublist_dropCollectionInit property f).eraseP.trans (sublist_placeProperty property p _)
  | reference target p =>
    exact (sublist_placeProperty property p f).eraseP.trans (sublist_dropCollectionInit property _)
  | collection target p h =>
    exact (sublist_placeProperty property p f).eraseP.trans (sublist_collectionEnsured h)

theorem constructor?_placeProperty (name : Text) (p : Property) (f : ClassFile) :
    (placeProperty name p f).constructor? = f.constructor? :=
  findMethod?_placeProperty name p

/-- Where no collection is defined, the constructor loses the lines that make one empty. -/
theorem Prepares.constructor_of_single (h : Prepares property f definition g)
    (hsingle : ∀ target, definition ≠ .collection target) :
    g.constructor? = f.constructor?.map (·.without (Render.collectionInit property)) := by
  cases h with
  | field type p => rw [constructor?_placeProperty, constructor?_dropCollectionInit]
  | reference target p => rw [constructor?_dropCollectionInit, constructor?_placeProperty]
  | collection target p h => exact absurd rfl (hsingle target)

theorem Prepares.revised (h : Prepares property f definition g) :
    (∀ m, f.constructor? = some m → ∃ k, g.constructor? = some k ∧ Revised property f.indent m k) ∧
    (f.constructor? = none → ∀ k, g.constructor? = some k →
      Revised property f.indent emptyConstructor k) := by
  have hsingle : (∀ target, definition ≠ .collection target) →
      (∀ m, f.constructor? = some m → ∃ k, g.constructor? = some k ∧
        Revised property f.indent m k) ∧
      (f.constructor? = none → ∀ k, g.constructor? = some k →
        Revised property f.indent emptyConstructor k) := by
    intro hsingle
    rw [h.constructor_of_single hsingle]
    refine ⟨fun m hm => ⟨_, by rw [hm]; rfl, .dropped⟩, fun hnone k hk => ?_⟩
    rw [hnone] at hk
    cases hk
  cases h with
  | field type p => exact hsingle fun _ => Definition.noConfusion
  | reference target p => exact hsingle fun _ => Definition.noConfusion
  | collection target p h =>
    obtain ⟨k, hk, hrevised⟩ := revised_collectionEnsured h
    rw [constructor?_placeProperty, ← (frame_placeProperty f property p).indent] at hrevised
    refine ⟨fun m hm => ⟨k, hk, ?_⟩, fun hnone k' hk' => ?_⟩
    · rwa [hm] at hrevised
    · rw [hnone] at hrevised
      rwa [← Option.some.inj (hk.symm.trans hk')]

end

end Call

/-! ## Calls that succeed -/

/-- Whether the property that a call defines has a plain name, and the target, too. -/
def Call.IsPlainlyNamed : Call → Prop
  | addField name _ _ _ => Plain name
  | addRelation r targetName => (∀ property ∈ r.property, Plain property) ∧
    Plain ((given? targetName).getD r.targetName)

theorem Definition.plain_names (definition : Definition) {property : Text}
    (hproperty : Plain property)
    (htarget : ∀ target, definition = .collection target → Plain target) :
    ∀ a ∈ definition.accessors property, Plain a.name := by
  have hwords : ∀ w ∈ [("get" : Text), "set", "remove", "add"], Plain w := by decide
  have hupper := plain_upperFirst hproperty
  intro a ha
  cases definition with
  | field type =>
    simp only [accessors, fieldAccessors, List.mem_cons, List.not_mem_nil, or_false] at ha
    rcases ha with rfl | rfl
    · exact (hwords "get" (by simp)).append hupper
    · exact (hwords "set" (by simp)).append hupper
  | reference target =>
    simp only [accessors, referenceAccessors, List.mem_cons, List.not_mem_nil, or_false] at ha
    rcases ha with rfl | rfl | rfl
    · exact (hwords "get" (by simp)).append hupper
    · exact (hwords "set" (by simp)).append hupper
    · exact (hwords "remove" (by simp)).append hupper
  | collection target =>
    simp only [accessors, collectionAccessors, List.mem_cons, List.not_mem_nil, or_false] at ha
    rcases ha with rfl | rfl | rfl
    · exact (hwords "add" (by simp)).append (htarget target rfl)
    · exact (hwords "remove" (by simp)).append (htarget target rfl)
    · exact (hwords "get" (by simp)).append hupper

section

variable {i : Text} {d d' : Desk}

/-- What an edit has done that succeeds in adding a field of whatever native type. -/
theorem of_addField {name : Text} {type : FieldType} {phpType : Option Text} {nullable : Bool}
    (h : (addField i name type phpType nullable).run d = (.ok (), d')) :
    ∃ p ms, (Render.fieldAccessors i name ((given? phpType).getD type.phpType) nullable).mapM
        methodOf = .ok ms ∧
      d'.file = placeMethods ms (staleAccessors d.file name)
        (placeProperty name p (dropCollectionInit name d.file)) := by
  cases hname : isIdentifier name with
  | false =>
    rw [run_addField_refused hname] at h
    cases h
  | true =>
    simp only [addField, hname, Bool.not_true, Bool.false_eq_true, if_false, run_bind, run_file,
      run_parsed, run_change, run_record] at h
    cases hp : propertyOf (Render.fieldProperty name type.name ((given? phpType).getD type.phpType)
        nullable) with
    | error e =>
      rw [hp] at h
      cases h
    | ok p =>
      rw [hp] at h
      simp only [Except.mapError] at h
      cases hms : (Render.fieldAccessors i name ((given? phpType).getD type.phpType)
          nullable).mapM methodOf with
      | error e =>
        rw [hms] at h
        cases h
      | ok ms =>
        rw [hms] at h
        cases h
        exact ⟨p, ms, rfl, rfl⟩

/-- What an edit has done that succeeds in adding a relation, whatever the other names in it. -/
theorem of_addRelation {r : Relation} {targetName : Option Text}
    (h : (addRelation i r targetName).run d = (.ok (), d')) :
    ∃ property p ms g, given? r.property = some property ∧
      (if r.kind.isCollection then
          Render.collectionAccessors i property ((given? targetName).getD r.targetName)
        else Render.referenceAccessors i property ((given? targetName).getD r.targetName)).mapM
          methodOf = .ok ms ∧
      (if r.kind.isCollection then collectionEnsured property (placeProperty property p d.file)
        else .ok (dropCollectionInit property (placeProperty property p d.file))) = .ok g ∧
      d'.file = placeMethods ms (staleAccessors d.file property) g := by
  cases htarget : isClassName ((given? targetName).getD r.targetName) with
  | false =>
    rw [run_addRelation_target htarget] at h
    cases h
  | true =>
    by_cases hproperty : ∃ property, given? r.property = some property ∧
        isIdentifier property = true
    · obtain ⟨property, hproperty, hname⟩ := hproperty
      simp only [addRelation, hproperty, htarget, hname, Bool.not_true, Bool.false_eq_true,
        if_false, run_bind, run_file, run_parsed, run_change, run_record, run_ite] at h
      cases hp : propertyOf (relationText r property ((given? targetName).getD r.targetName)) with
      | error e =>
        rw [hp] at h
        cases h
      | ok p =>
        rw [hp] at h
        simp only [Except.mapError] at h
        cases hms : (if r.kind.isCollection then
              Render.collectionAccessors i property ((given? targetName).getD r.targetName)
            else Render.referenceAccessors i property ((given? targetName).getD r.targetName)).mapM
              methodOf with
        | error e =>
          -- whatever has become of the constructor, the accessors are not placed
          rw [hms] at h
          split at h
          · split at h <;> cases h
          · cases h
        | ok ms =>
          rw [hms] at h
          cases hkind : r.kind.isCollection with
          | false =>
            rw [hkind] at h hms
            cases h
            exact ⟨property, p, ms, _, hproperty, hms, rfl, rfl⟩
          | true =>
            rw [hkind, if_pos rfl] at h hms
            obtain ⟨log, hensured⟩ :=
              run_ensureCollectionInit property ⟨placeProperty property p d.file, d.log⟩
            rw [hensured] at h
            cases hg : collectionEnsured property (placeProperty property p d.file) with
            | error e =>
              rw [hg] at h
              cases h
            | ok g =>
              rw [hg] at h
              cases h
              exact ⟨property, p, ms, g, hproperty, hms, hg, rfl⟩
    · rw [run_addRelation_property (fun p hp => ?_) htarget] at h
      · cases h
      · rw [← Bool.not_eq_true]
        exact fun hname => hproperty ⟨p, hp, hname⟩

/-- **A call that succeeds** prepares the property and the constructor, and places accessors under
the names that the definition generates. -/
theorem Call.of_edit {call : Call} (hplain : call.IsPlainlyNamed)
    (h : (call.edit i).run d = (.ok (), d')) :
    ∃ property definition g ms, call.defines? = some (property, definition) ∧
      Call.Prepares property d.file definition g ∧
      ms.map Method.name = definition.accessorNames property ∧
      d'.file = placeMethods ms (staleAccessors d.file property) g := by
  cases call with
  | addField name type phpType nullable =>
    rw [Call.edit] at h
    cases haccepted : isIdentifier name with
    | false =>
      rw [run_addFieldOf_refused haccepted] at h
      cases h
    | true =>
      cases htype : requireFieldType type with
      | error e =>
        rw [run_addFieldOf_unknown haccepted htype] at h
        cases h
      | ok t =>
        rw [addFieldOf_eq haccepted htype] at h
        obtain ⟨p, ms, hms, hfile⟩ := of_addField h
        rw [Call.defines?, htype]
        refine ⟨name, _, _, ms, rfl, .field _ p, ?_, hfile⟩
        rw [render_fieldAccessors] at hms
        exact Accessor.names_of_mapM (Definition.plain_names (.field _) hplain
          fun _ => Definition.noConfusion) hms
  | addRelation r targetName =>
    rw [Call.edit] at h
    obtain ⟨property, p, ms, g, hproperty, hms, hg, hfile⟩ := of_addRelation h
    obtain ⟨hproperties, htarget⟩ := hplain
    have hname : Plain property := hproperties _ (eq_some_of_given? hproperty)
    rw [Call.defines?, hproperty]
    refine ⟨property, _, g, ms, rfl, ?_⟩
    rw [Definition.ofRelation]
    cases hkind : r.kind.isCollection with
    | false =>
      rw [hkind] at hms hg
      cases hg
      refine ⟨.reference _ p, ?_, hfile⟩
      exact Accessor.names_of_mapM (Definition.plain_names (.reference _) hname
        fun _ => Definition.noConfusion) ((render_referenceAccessors i property _).symm ▸ hms)
    | true =>
      rw [hkind, if_pos rfl] at hms hg
      refine ⟨.collection _ p hg, ?_, hfile⟩
      exact Accessor.names_of_mapM (Definition.plain_names (.collection _) hname
        fun _ heq => Definition.collection.inj heq ▸ htarget)
          ((render_collectionAccessors i property _).symm ▸ hms)

/-! ## What is left alone -/

/-- The members of a class beside a property, the constructor and the methods of some names. -/
def Source.ClassFile.others (f : ClassFile) (property : Text) (names : List Text) : List Member :=
  ((f.members.eraseP (·.isPropertyNamed property)).eraseP
    (·.isMethodNamed constructorName)).filter fun m => !names.any m.isMethodNamed

/-- **Placing methods spares the members of other names.** -/
theorem sublist_placeMethods {g : ClassFile} {ms : List Method} {stale names : List Text}
    (hms : ms.map Method.name = names) :
    (g.members.filter fun m => !(stale ++ names).any m.isMethodNamed).Sublist
      (placeMethods ms stale g).members := by
  have hnamed : ∀ (k : Method) (name : Text), k.key = lower name → name ∈ stale ++ names →
      (!(stale ++ names).any (Member.method k).isMethodNamed) = false := by
    intro k name hkey hmem
    rw [Bool.not_eq_false', List.any_eq_true]
    exact ⟨name, hmem, ClassFile.isMethodNamed_iff.mpr hkey⟩
  have hsame : (placeMethods ms stale g).members.filter
        (fun m => !(stale ++ names).any m.isMethodNamed) =
      g.members.filter fun m => !(stale ++ names).any m.isMethodNamed := by
    refine filter_placeMethods (fun m hm k hkey => ?_) fun name hname k hkey => ?_
    · refine hnamed k m.name hkey (List.mem_append_right _ ?_)
      exact hms ▸ List.mem_map_of_mem hm
    · exact hnamed k name hkey (List.mem_append_left _ hname)
  rw [← hsame]
  exact List.filter_sublist

/-- **A call that succeeds leaves everything else alone.**  Beside the property that it defines, the
accessors that it was read to have and those that it gets, and the constructor, all members are
there afterwards, to the letter and in their order.  The constructor is kept, or loses the lines
that make the collection empty, or gets such a line at its end; if there was none, there is a new
one, if any. -/
theorem Call.spares_others {call : Call} (hplain : call.IsPlainlyNamed)
    (h : (call.edit i).run d = (.ok (), d')) :
    ∃ property definition, call.defines? = some (property, definition) ∧
      (d.file.others property (staleAccessors d.file property ++
        definition.accessorNames property)).Sublist d'.file.members ∧
      (∀ m, d.file.constructor? = some m → ∃ k, d'.file.constructor? = some k ∧
        Revised property d.file.indent m k) ∧
      (d.file.constructor? = none → ∀ k, d'.file.constructor? = some k →
        Revised property d.file.indent emptyConstructor k) := by
  obtain ⟨property, definition, g, ms, hdefines, hprepares, hms, hfile⟩ := Call.of_edit hplain h
  refine ⟨property, definition, hdefines, ?_, ?_⟩
  · rw [hfile]
    exact (hprepares.sublist.filter _).trans (sublist_placeMethods hms)
  · rw [hfile, constructor?_placeAccessors hms]
    exact hprepares.revised

/-- A report with a constant, a constructor and a method of its own gets its tags. -/
theorem spares_others_of_report :
    let fill : Method :=
      { name := constructorName, head := "public function __construct()\n\x7b"
        body := some "\n    $this->options = [];\n", tail := "\x7d" }
    let print : Method :=
      { name := "print", head := "public function print(): string\n\x7b"
        body := some "\n    return '';\n", tail := "\x7d" }
    let f : ClassFile :=
      { className := "Report", opening := "<?php\n\nclass Report\n\x7b", closing := "\x7d\n"
        indent := "    ", path := none
        items := [.member (.verbatim "const LIMIT = 3;"), .gap, .member (.method fill), .gap,
          .member (.method print)] }
    let tags : Relation :=
      { property := some "tags", kind := .manyToMany, target := "Tag" }
    ∃ d', (Call.addRelation tags none).IsPlainlyNamed ∧
      ((Call.addRelation tags none).edit "    ").run ⟨f, []⟩ = (.ok (), d') ∧
      [Member.verbatim "const LIMIT = 3;", .method print].Sublist d'.file.members ∧
      ∃ k, d'.file.constructor? = some k ∧ Revised "tags" "    " fill k := by
  intro fill print f tags
  have hplain : (Call.addRelation tags none).IsPlainlyNamed := ⟨by decide, by decide⟩
  have hok : (((Call.addRelation tags none).edit "    ").run ⟨f, []⟩).1.isOk = true := by
    decide +kernel
  cases hrun : ((Call.addRelation tags none).edit "    ").run ⟨f, []⟩ with
  | mk result d' =>
    rw [hrun] at hok
    cases result with
    | error e => cases hok
    | ok u =>
      obtain ⟨property, definition, hdefines, hothers, hconstructor, -⟩ :=
        Call.spares_others hplain hrun
      cases hdefines
      have hlist : f.others "tags" (staleAccessors f "tags" ++
          (Definition.collection "Tag").accessorNames "tags") =
            [.verbatim "const LIMIT = 3;", .method print] := by decide +kernel
      have hothers' := hlist ▸ hothers
      exact ⟨d', hplain, rfl, hothers', hconstructor fill (by decide +kernel)⟩

/-- **Where no collection is defined the constructor keeps its statements**, but for lines that make
a collection of that name empty. -/
theorem Call.constructor_of_single {call : Call} (hplain : call.IsPlainlyNamed)
    (h : (call.edit i).run d = (.ok (), d')) {property : Text} {definition : Definition}
    (hdefines : call.defines? = some (property, definition))
    (hsingle : ∀ target, definition ≠ .collection target) :
    d'.file.constructor? =
      d.file.constructor?.map (·.without (Render.collectionInit property)) := by
  obtain ⟨property', definition', g, ms, hdefines', hprepares, hms, hfile⟩ := Call.of_edit hplain h
  cases hdefines.symm.trans hdefines'
  rw [hfile, constructor?_placeAccessors hms]
  exact hprepares.constructor_of_single hsingle

end

end EntityScaffold
