import EntityScaffold.Proofs.Edits
import EntityScaffold.Proofs.Source.RoundTrip

/-!
# Classes made by edits alone

* `Regular` — a class whose members are all tidy, and whose constructor does nothing but make
  collections empty.  It can be written and read again.
* `Regular.fieldAdded`, `Regular.relationAdded` — the edits with plain names keep this, and none of
  them fails.
-/

set_option autoImplicit false

namespace EntityScaffold

open Text Source Edit

/-- A member that can be read back; if it is a constructor, it makes collections empty. -/
structure Source.Member.Regular (i : Text) (m : Member) : Prop where
  tidy : ∃ rows, Tidy m rows
  constructor : ∀ k, m = .method k → k.isConstructor = true →
    ∃ collections, (∀ p ∈ collections, Plain p) ∧ k = constructorOf i collections

/-- A class made by edits alone. -/
structure Regular (f : ClassFile) : Prop where
  opening : ∃ hs, Opening f.opening f.className hs
  members : ∀ m ∈ f.members, m.Regular f.indent
  nonempty : f.properties ≠ []
  closing : f.closing = "\x7d\n"
  indent : IsIndent f.indent
  indented : f.indent ≠ []

section

variable {f g : ClassFile}

/-- **A class made by edits alone can be written and read again.** -/
theorem Regular.settled (h : Regular f) : Settled f where
  opening := h.opening
  members m hm := (h.members m hm).tidy
  nonempty hn := h.nonempty (by rw [f.properties_eq, hn]; rfl)
  closing := h.closing
  indent := h.indent
  indented := h.indented

/-- A class of the same frame whose members are regular or have been there. -/
theorem Regular.of_members (h : Regular f) (hframe : Frame f g) (hne : g.properties ≠ [])
    (hm : ∀ m ∈ g.members, m.Regular f.indent ∨ m ∈ f.members) : Regular g where
  opening := by
    rw [← hframe.opening, ← hframe.className]
    exact h.opening
  members m hg := by
    rw [← hframe.indent]
    exact (hm m hg).elim id (h.members m)
  nonempty := hne
  closing := hframe.closing ▸ h.closing
  indent := hframe.indent ▸ h.indent
  indented := hframe.indent ▸ h.indented

theorem Regular.normalized (h : Regular f) (path : Option Text) :
    Regular { f.normalized with path := path } :=
  h.of_members (alike_normalized f path).symm
    (by
      rw [ClassFile.properties_eq, (alike_normalized f path).members]
      exact h.nonempty)
    fun m hm => .inr (by rwa [(alike_normalized f path).members] at hm)

/-! ## Members that edits put into a class -/

theorem regular_property {i : Text} {p : Property} (h : ∃ rows, Tidy (.property p) rows) :
    (Member.property p).Regular i :=
  ⟨h, fun _ hk => by cases hk⟩

/-- No accessor goes by the name of constructors. -/
theorem Accessor.not_isConstructor (i : Text) (a : Accessor) :
    (a.method i).isConstructor = false :=
  beq_eq_false_iff_ne.mpr a.lower_name_ne

theorem Accessor.regular {i : Text} (hi : IsIndent i) {a : Accessor} (ha : a.IsPlain) (j : Text) :
    (Member.method (a.method i)).Regular j := by
  refine ⟨⟨_, a.tidy hi ha⟩, fun k hk hc => ?_⟩
  cases hk
  rw [a.not_isConstructor i] at hc
  cases hc

theorem regular_constructorOf {i : Text} (hi : IsIndent i) {collections : List Text}
    (h : ∀ p ∈ collections, Plain p) :
    (Member.method (constructorOf i collections)).Regular i :=
  ⟨⟨_, tidy_constructorOf hi h⟩, fun k hk _ => ⟨collections, h, by cases hk; rfl⟩⟩

/-! ## Members that are found -/

theorem mem_of_findMethod? {name : Text} {m : Method} (h : f.findMethod? name = some m) :
    .method m ∈ f.members ∧ ClassFile.isMethodNamed name m = true := by
  refine ⟨?_, List.find?_some h⟩
  obtain ⟨k, hk, hm⟩ := List.mem_filterMap.mp (List.mem_of_find?_eq_some h)
  cases k with
  | property p => cases hm
  | verbatim t => cases hm
  | method k =>
    cases hm
    exact hk

/-- The constructor of a class made by edits alone makes collections empty. -/
theorem Regular.constructor (h : Regular f) {m : Method} (hm : f.constructor? = some m) :
    ∃ collections, (∀ p ∈ collections, Plain p) ∧ m = constructorOf f.indent collections := by
  obtain ⟨hmem, hname⟩ := mem_of_findMethod? hm
  rw [ClassFile.isMethodNamed, lower_constructorName] at hname
  exact (h.members _ hmem).constructor m rfl hname

/-! ## The edits keep classes regular -/

theorem Regular.placeProperty (h : Regular f) {name : Text} {p : Property}
    (hp : (Member.property p).Regular f.indent) (hname : p.name = name) :
    Regular (placeProperty name p f) := by
  refine h.of_members (frame_placeProperty f name p) ?_ fun m hm => ?_
  · -- the property itself is there
    have hfound := (put_placeProperty (f := f) hname).find?_self
    intro hnone
    rw [hnone] at hfound
    cases hfound
  · rw [Edit.placeProperty] at hm
    split at hm
    · rw [ClassFile.members_replaceProperty] at hm
      refine (mem_of_mem_replaceFirst hm).imp_left fun he => ?_
      rw [he]
      exact hp
    · rw [ClassFile.members_insertProperty] at hm
      refine (mem_insertBefore.mp hm).imp_left fun he => ?_
      rw [he]
      exact hp

theorem Regular.replaceMethod (h : Regular f) {name : Text} {m : Method}
    (hm : (Member.method m).Regular f.indent) : Regular (f.replaceMethod name (.method m)) := by
  refine h.of_members ⟨rfl, rfl, rfl, rfl⟩ ?_ fun k hk => ?_
  · rw [ClassFile.properties_replaceMethod]
    exact h.nonempty
  · rw [ClassFile.members_replaceMethod] at hk
    refine (mem_of_mem_replaceFirst hk).imp_left fun he => ?_
    rw [he]
    exact hm

theorem Regular.placeMethod (h : Regular f) {m : Method}
    (hm : (Member.method m).Regular f.indent) : Regular (placeMethod f m) := by
  rw [Edit.placeMethod]
  split
  · exact h.replaceMethod hm
  · refine h.of_members ⟨rfl, rfl, rfl, rfl⟩ ?_ fun k hk => ?_
    · rw [ClassFile.properties_insertMethod]
      exact h.nonempty
    · rw [ClassFile.members_insertMethod] at hk
      refine (mem_insertBehind.mp hk).imp_left fun he => ?_
      rw [he]
      exact hm

theorem Regular.removeMethod (h : Regular f) (name : Text) : Regular (f.removeMethod name) := by
  refine h.of_members ⟨rfl, rfl, rfl, rfl⟩ ?_ fun k hk => .inr ?_
  · rw [ClassFile.properties_removeMethod]
    exact h.nonempty
  · rw [ClassFile.members_removeMethod] at hk
    exact List.mem_of_mem_filter hk

/-- Accessors can be placed and stale ones removed. -/
theorem Regular.placeMethods (h : Regular f) {ms : List Method}
    (hms : ∀ m ∈ ms, ∀ i, (Member.method m).Regular i) (stale : List Text) :
    Regular (placeMethods ms stale f) :=
  placeMethods_induction h (fun name _ _ hg => hg.removeMethod name)
    fun m hm _ hg => hg.placeMethod (hms m hm _)

theorem Regular.dropCollectionInit (h : Regular f) (property : Text) :
    Regular (dropCollectionInit property f) := by
  rw [Edit.dropCollectionInit]
  cases hc : f.constructor? with
  | none => exact h
  | some m =>
    obtain ⟨collections, hplain, rfl⟩ := h.constructor hc
    rw [Option.bind_some, constructorOf_dropStatement? h.indent hplain]
    by_cases hp : property ∈ collections
    · rw [if_pos hp]
      exact h.replaceMethod
        (regular_constructorOf h.indent fun p hp => hplain p (List.mem_of_mem_filter hp))
    · rw [if_neg hp]
      exact h

theorem Regular.withConstructor (h : Regular f) : Regular f.withConstructor := by
  cases hc : f.constructor? with
  | some m =>
    rw [ClassFile.withConstructor, hc]
    exact h
  | none =>
    refine h.of_members (frame_withConstructor f) ?_ fun k hk => ?_
    · rw [ClassFile.properties_withConstructor]
      exact h.nonempty
    · rw [f.members_withConstructor hc] at hk
      refine (mem_insertBefore.mp hk).imp_left fun he => ?_
      rw [he, emptyConstructor_eq f.indent]
      exact regular_constructorOf h.indent (by simp)

/-- The constructor of a class made by edits alone can be read. -/
theorem Regular.statementEnsured (h : Regular f) {property : Text} (hp : Plain property) :
    ∃ g, statementEnsured property f = .ok g ∧ Regular g := by
  rw [EntityScaffold.statementEnsured]
  cases hc : f.constructor? with
  | none => exact ⟨f, rfl, h⟩
  | some m =>
    obtain ⟨collections, hplain, rfl⟩ := h.constructor hc
    obtain ⟨names, hnames⟩ := assigned_constructorOf h.indent hplain
    simp only [hnames, constructorOf_addStatement h.indent hplain]
    cases names.contains property with
    | true => exact ⟨f, rfl, h⟩
    | false =>
      refine ⟨_, rfl, h.replaceMethod (regular_constructorOf h.indent fun p hmem => ?_)⟩
      rcases List.mem_append.mp hmem with hmem | hmem
      · exact hplain p hmem
      · rw [List.mem_singleton.mp hmem]
        exact hp

/-- **A field added to a class made by edits alone gives such a class.** -/
theorem Regular.fieldAdded (h : Regular f) {i name php : Text} (hi : IsIndent i)
    (hname : Name name) (hphp : IsFieldType php) (type : FieldType) (nullable : Bool) :
    Regular (fieldAdded i name type php nullable f) := by
  refine ((h.dropCollectionInit name).placeProperty
    (regular_property (tidy_fieldProperty hname hphp type nullable)) rfl).placeMethods
    (fun m hm j => ?_) _
  obtain ⟨a, ha, rfl⟩ := List.mem_map.mp hm
  refine a.regular hi ?_ j
  simp only [fieldAccessors, List.mem_cons, List.not_mem_nil, or_false] at ha
  rcases ha with rfl | rfl <;> exact ⟨hname.plain, (hphp nullable).1⟩

/-- **A relation added to a class made by edits alone gives such a class.** -/
theorem Regular.relationAdded (h : Regular f) {i property target : Text} {r : Relation}
    (hi : IsIndent i) (hproperty : Name property) (htarget : Capital target)
    (hother : ∀ o ∈ r.otherProperty, Plain o) (hjoin : ∀ j ∈ r.joinTable, j.IsPlain) :
    ∃ g, relationAdded i r property target f = .ok g ∧ Regular g := by
  have hplaced : Regular (Edit.placeProperty property (relationProperty r property target) f) :=
    h.placeProperty (regular_property (tidy_relationProperty hproperty htarget hother hjoin)) rfl
  have hmethods : ∀ m ∈ (relationAccessors r.kind property target).map (·.method i),
      ∀ j, (Member.method m).Regular j := by
    intro m hm j
    obtain ⟨a, ha, rfl⟩ := List.mem_map.mp hm
    exact a.regular hi (isPlain_relationAccessors hproperty.plain htarget a ha) j
  rw [EntityScaffold.relationAdded]
  cases r.kind.isCollection with
  | false => exact ⟨_, rfl, (hplaced.dropCollectionInit property).placeMethods hmethods _⟩
  | true =>
    obtain ⟨k, hk, hregular⟩ := hplaced.withConstructor.statementEnsured hproperty.plain
    simp only [if_true, collectionEnsured, hk]
    exact ⟨_, rfl, hregular.placeMethods hmethods _⟩

end

end EntityScaffold
