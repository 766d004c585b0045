import EntityScaffold.Proofs.Rendered.Stub

/-!
# Incremental generation equals batch generation

A new entity's class takes fields and relations, and may be written and read again at any time in
between: the text in the end is the same.

* `Call`, `session` — calls of the editor, and several of them in a row.
* `Resumed` — sessions with the class written and read again after each of them.
* `regular_session`, `alike_session` — what a session keeps.
* `incremental_generation` — the result.
-/

set_option autoImplicit false

namespace EntityScaffold

open Text Source

/-- A call of the editor. -/
inductive Call where
  | addField (name : Text) (type : Value) (phpType : Option Text) (nullable : Bool)
  | addRelation (r : Relation) (targetName : Option Text)

namespace Call

/-- The edit that a call makes. -/
def edit (i : Text) : Call → Edit Unit
  | addField name type phpType nullable => Edit.addFieldOf i name type phpType nullable
  | addRelation r targetName => Edit.addRelation i r targetName

/-- Whether the names in a call are plain, and its native type is one of those that fields have. -/
def IsPlain : Call → Prop
  | addField name _ phpType _ => Plain name ∧ ∀ t ∈ given? phpType, t ∈ nativeTypes
  | addRelation r targetName => r.IsPlain ((given? targetName).getD r.targetName)

/-- The class after a call; one that fails may have changed it, too. -/
def apply (i : Text) (f : ClassFile) (c : Call) : ClassFile := ((c.edit i).run { file := f }).2.file

end Call

/-- The class after calls. -/
def session (i : Text) (calls : List Call) (f : ClassFile) : ClassFile := calls.foldl (Call.apply i) f

theorem session_append (i : Text) (calls more : List Call) (f : ClassFile) :
    session i (calls ++ more) f = session i more (session i calls f) :=
  List.foldl_append

/-- The class after sessions, written and read again after each of them. -/
def resumed (i : Text) (path : Option Text) (runs : List (List Call)) (f : ClassFile) :
    Except ParseError ClassFile :=
  runs.foldlM (fun f calls => ClassFile.parse (session i calls f).serialize path) f

/-! ## One call -/

/-- What a call may do to a class: leave it, or declare a field or a relation. -/
inductive Change (i : Text) : (ClassFile → Except ParseError ClassFile) → Prop where
  | none : Change i .ok
  | field {name php : Text} (type : FieldType) (nullable : Bool) (hname : Name name)
      (hphp : IsFieldType php) : Change i fun f => .ok (fieldAdded i name type php nullable f)
  | relation {r : Relation} {property target : Text} (hproperty : Name property)
      (htarget : Capital target) (hother : ∀ o ∈ r.otherProperty, Plain o)
      (hjoin : ∀ j ∈ r.joinTable, j.IsPlain) : Change i (relationAdded i r property target)

section

variable {i : Text} {f g : ClassFile}

/-- **A call with plain names makes one change, the same for every class.** -/
theorem Call.exists_change (hi : IsIndent i) {c : Call} (hc : c.IsPlain) :
    ∃ change, Change i change ∧ ∀ f g, change f = .ok g → c.apply i f = g := by
  cases c with
  | addField name type phpType nullable =>
    obtain ⟨hplain, hphp⟩ := hc
    cases hname : isIdentifier name with
    | false =>
      refine ⟨_, .none, fun f g hg => ?_⟩
      cases hg
      rw [Call.apply, Call.edit, run_addFieldOf_refused hname]
    | true =>
      cases htype : Edit.requireFieldType type with
      | error e =>
        refine ⟨_, .none, fun f g hg => ?_⟩
        cases hg
        rw [Call.apply, Call.edit, run_addFieldOf_unknown hname htype]
      | ok t =>
        have hnative : IsFieldType ((given? phpType).getD t.phpType) := by
          cases hgiven : given? phpType with
          | none => exact isFieldType_native (phpType_mem t)
          | some php => exact isFieldType_native (hphp php hgiven)
        refine ⟨_, .field t nullable (name_of_isIdentifier hplain hname) hnative,
          fun f g hg => ?_⟩
        cases hg
        obtain ⟨log, hlog⟩ : ∃ log, (Edit.addField i name t phpType nullable).run { file := f } =
            (.ok (), ⟨fieldAdded i name t ((given? phpType).getD t.phpType) nullable f, log⟩) :=
          run_addField hi hname hplain hnative { file := f }
        rw [Call.apply, Call.edit, addFieldOf_eq hname htype, hlog]
  | addRelation r targetName =>
    have hc : r.IsPlain ((given? targetName).getD r.targetName) := hc
    cases htarget : isClassName ((given? targetName).getD r.targetName) with
    | false =>
      refine ⟨_, .none, fun f g hg => ?_⟩
      cases hg
      rw [Call.apply, Call.edit, run_addRelation_target htarget]
    | true =>
      by_cases hproperty : ∃ p, given? r.property = some p ∧ isIdentifier p = true
      · obtain ⟨p, hp, hname⟩ := hproperty
        refine ⟨_, .relation (name_of_isIdentifier (hc.property p (eq_some_of_given? hp)) hname)
          (capital_of_isClassName hc.target htarget) hc.other hc.joinTable, fun f g hg => ?_⟩
        obtain ⟨d', hrun, hd'⟩ := run_addRelation hi hp hname htarget hc { file := f }
        rw [hg] at hd'
        obtain ⟨log, rfl⟩ := hd'
        rw [Call.apply, Call.edit, hrun]
      · refine ⟨_, .none, fun f g hg => ?_⟩
        cases hg
        have hnone : ∀ p ∈ given? r.property, isIdentifier p = false := by
          intro p hp
          cases hname : isIdentifier p with
          | false => rfl
          | true => exact absurd ⟨p, hp, hname⟩ hproperty
        rw [Call.apply, Call.edit, run_addRelation_property hnone htarget]

/-- **A change keeps classes regular and does not fail.** -/
theorem Change.regular {change : ClassFile → Except ParseError ClassFile} (hc : Change i change)
    (hi : IsIndent i) (h : Regular f) : ∃ g, change f = .ok g ∧ Regular g := by
  cases hc with
  | none => exact ⟨f, rfl, h⟩
  | field type nullable hname hphp => exact ⟨_, rfl, h.fieldAdded hi hname hphp type nullable⟩
  | relation hproperty htarget hother hjoin =>
    exact h.relationAdded hi hproperty htarget hother hjoin

/-- **A change does not depend on gaps.** -/
theorem Change.alike {change : ClassFile → Except ParseError ClassFile} (hc : Change i change)
    (h : Alike f g) : AlikeResults (change f) (change g) := by
  cases hc with
  | none => exact h
  | field type nullable hname hphp => exact h.fieldAdded i _ type _ nullable
  | relation hproperty htarget hother hjoin => exact h.relationAdded i _ _ _

theorem Call.regular (hi : IsIndent i) {c : Call} (hc : c.IsPlain) (h : Regular f) :
    Regular (c.apply i f) := by
  obtain ⟨change, hchange, happly⟩ := Call.exists_change hi hc
  obtain ⟨k, hk, hregular⟩ := hchange.regular hi h
  rw [happly f k hk]
  exact hregular

theorem Call.alike (hi : IsIndent i) {c : Call} (hc : c.IsPlain) (hf : Regular f)
    (hg : Regular g) (h : Alike f g) : Alike (c.apply i f) (c.apply i g) := by
  obtain ⟨change, hchange, happly⟩ := Call.exists_change hi hc
  obtain ⟨k, hk, -⟩ := hchange.regular hi hf
  obtain ⟨l, hl, -⟩ := hchange.regular hi hg
  have hsame := hchange.alike h
  rw [hk, hl] at hsame
  rw [happly f k hk, happly g l hl]
  exact hsame

/-! ## Calls in a row -/

theorem regular_session (hi : IsIndent i) {calls : List Call} (hc : ∀ c ∈ calls, c.IsPlain)
    (h : Regular f) : Regular (session i calls f) := by
  induction calls generalizing f with
  | nil => exact h
  | cons c calls ih =>
    exact ih (fun d hd => hc d (List.mem_cons_of_mem c hd)) (Call.regular hi (hc c (by simp)) h)

theorem alike_session (hi : IsIndent i) {calls : List Call} (hc : ∀ c ∈ calls, c.IsPlain)
    (hf : Regular f) (hg : Regular g) (h : Alike f g) :
    Alike (session i calls f) (session i calls g) := by
  induction calls generalizing f g with
  | nil => exact h
  | cons c calls ih =>
    have hplain := hc c (by simp)
    exact ih (fun d hd => hc d (List.mem_cons_of_mem c hd)) (Call.regular hi hplain hf)
      (Call.regular hi hplain hg) (Call.alike hi hplain hf hg h)

/-- **Sessions with the class written and read again in between** lead to the class of one session,
but for gaps. -/
theorem resumed_alike (hi : IsIndent i) (path : Option Text) {runs : List (List Call)}
    (hc : ∀ calls ∈ runs, ∀ c ∈ calls, c.IsPlain) (hf : Regular f) (hg : Regular g)
    (h : Alike f g) :
    ∃ k, resumed i path runs f = .ok k ∧ Regular k ∧ Alike k (session i runs.flatten g) := by
  induction runs generalizing f g with
  | nil => exact ⟨f, rfl, hf, h⟩
  | cons calls runs ih =>
    have hcalls := hc calls (by simp)
    have hregular := regular_session hi hcalls hf
    have hsame := alike_session hi hcalls hf hg h
    have hparse := hregular.settled.parse_serialize path
    obtain ⟨k, hk, hkr, hka⟩ := ih (fun r hr => hc r (List.mem_cons_of_mem calls hr))
      (hregular.normalized path) (regular_session hi hcalls hg)
      ((alike_normalized _ path).trans hsame)
    refine ⟨k, ?_, hkr, ?_⟩
    · rw [resumed, List.foldlM_cons, hparse]
      exact hk
    · rwa [List.flatten_cons, session_append]

/-- **Incremental generation equals batch generation.**  The class of a new entity is read; then
come sessions of calls with plain names, with the class written and read again after each but the
last.  The text in the end is that of all calls in one session, and reading it gives the members
that have been written. -/
theorem incremental_generation {c : Config} {name : Text} {ns : Option Text}
    (h : PlainStub c name ns) (path : Option Text) :
    ∃ f, ClassFile.parse (Render.entityStub c name ns) path = .ok f ∧
      ∀ (runs : List (List Call)) (last : List Call),
        (∀ calls ∈ runs, ∀ call ∈ calls, call.IsPlain) → (∀ call ∈ last, call.IsPlain) →
        ∃ g, resumed c.indent path runs f = .ok g ∧
          (session c.indent last g).serialize =
            (session c.indent (runs.flatten ++ last) f).serialize ∧
          ∃ k, ClassFile.parse (session c.indent last g).serialize path = .ok k ∧
            k.members = (session c.indent last g).members := by
  have hi := isIndent_config c
  have hstub : Regular { stubClass c name ns with path := path } := by
    have := (regular_stubClass h).normalized path
    rwa [normalized_stubClass] at this
  refine ⟨_, parse_entityStub h path, fun runs last hruns hlast => ?_⟩
  obtain ⟨g, hg, hregular, halike⟩ := resumed_alike hi path hruns hstub hstub (.refl _)
  have hlastRegular := regular_session hi hlast hregular
  refine ⟨g, hg, ?_, _, hlastRegular.settled.parse_serialize path, ClassFile.members_normalized _⟩
  rw [session_append]
  exact (alike_session hi hlast hregular
    (regular_session hi (fun call hcall => by
      obtain ⟨calls, hcalls, hcall⟩ := List.mem_flatten.mp hcall
      exact hruns calls hcalls call hcall) hstub) halike).serialize_eq

/-- A new post gets a title, is written and read again, and gets its tags. -/
theorem incremental_generation_of_post :
    let title := Call.addField "title" (.atom (.text "string")) none true
    let tags := Call.addRelation { property := some "tags", kind := .oneToMany, target := "Tag" } none
    PlainStub {} "Post" none ∧ title.IsPlain ∧ tags.IsPlain ∧
      ∃ f g, ClassFile.parse (Render.entityStub {} "Post" none) none = .ok f ∧
        resumed (Config.indent {}) none [[title]] f = .ok g ∧
        (session (Config.indent {}) [tags] g).serialize =
          (session (Config.indent {}) [title, tags] f).serialize := by
  intro title tags
  have hstub : PlainStub {} "Post" none :=
    ⟨by decide, by decide, by decide, ⟨by decide, by decide⟩⟩
  have htitle : title.IsPlain := ⟨by decide, fun t ht => by cases ht⟩
  have htags : tags.IsPlain := by
    refine ⟨by decide, fun p hp => ?_, fun o ho => (by cases ho), fun j hj => (by cases hj)⟩
    cases hp
    decide
  obtain ⟨f, hf, hall⟩ := incremental_generation hstub none
  obtain ⟨g, hg, htext, -⟩ := hall [[title]] [tags]
    (by
      intro calls hcalls call hcall
      rw [List.mem_singleton.mp hcalls] at hcall
      rw [List.mem_singleton.mp hcall]
      exact htitle)
    (by
      intro call hcall
      rw [List.mem_singleton.mp hcall]
      exact htags)
  exact ⟨hstub, htitle, htags, f, g, hf, hg, htext⟩

end

end EntityScaffold
