import EntityScaffold.Proofs.BodyLines
import EntityScaffold.Proofs.Histories
import EntityScaffold.Proofs.Source.KeptCode

/-!
# What additions leave alone

A class, whoever has written it, gets fields and relations that it did not have.  All of its members
stay, in their order and to the letter, but for the constructor, which loses and gains no lines but
those that make new collections empty.

* `Grown` — a class and what it has grown to; `Grown.redefined`, for a property that is new to the
  class, defined for the first time or again.
* `Additions` — calls in a row; `Additions.grown`, by induction on them.
* `Grown.members_sublist`, `Additions.keeps_text` — the members stay, and what stands in them stands
  in the text that is written.
-/

set_option autoImplicit false

namespace EntityScaffold

open Text Source Edit

/-! ## A class that grows -/

/-- Whether the class has a member that goes by the name of this one, the constructor apart. -/
def Source.ClassFile.owns (f : ClassFile) : Member → Bool
  | .property p => (f.findProperty? p.name).isSome
  | .method m => !m.isConstructor && (f.findMethod? m.name).isSome
  | .verbatim _ => true

/-- Whether the property that a call defines, and the accessors that this generates, are new to a
class. -/
def Call.IsNewTo (f : ClassFile) (call : Call) : Prop :=
  ∀ e, call.defines? = some e →
    f.findProperty? e.1 = none ∧ ∀ name ∈ e.2.accessorNames e.1, f.findMethod? name = none

/-- A class, and what has become of it by what was new to it. -/
structure Grown (f g : ClassFile) : Prop where
  frame : Frame f g
  members : g.members.filter f.owns = f.members.filter f.owns
  added : ∀ name p, f.findProperty? name = none → g.findProperty? name = some p →
    ∃ d, p.DeclaredAs d ∧ ∀ accessor ∈ d.accessorNames name, f.findMethod? accessor = none
  constructor : ∀ m, f.constructor? = some m → ∃ k, g.constructor? = some k ∧
    m.SameBut (fun l => ∃ name, f.findProperty? name = none ∧ l = Render.collectionInit name) k

section

variable {f g k : ClassFile} {d : Definition} {p : Property} {i : Text}

theorem Grown.refl (f : ClassFile) : Grown f f where
  frame := .refl f
  members := rfl
  added name p hnone hsome := by
    rw [hnone] at hsome
    cases hsome
  constructor m hm := ⟨m, hm, .refl m⟩

theorem owns_property {name : Text} (h : f.findProperty? name = none) {p : Property}
    (hp : p.name = name) : f.owns (.property p) = false := by
  rw [ClassFile.owns, hp, h]
  rfl

theorem owns_constructor {m : Method} (h : m.key = constructorName) :
    f.owns (.method m) = false := by
  rw [ClassFile.owns, isConstructor_iff.mpr h]
  rfl

theorem owns_method {name : Text} (h : f.findMethod? name = none) {m : Method}
    (hm : m.key = lower name) : f.owns (.method m) = false := by
  have hnone : f.findMethod? m.name = none := by
    rw [← Option.not_isSome_iff_eq_none, ClassFile.findMethod?_isSome_iff] at h ⊢
    rintro ⟨k, hk, hkey⟩
    exact h ⟨k, hk, hkey.trans hm⟩
  rw [ClassFile.owns, hnone]
  exact Bool.and_false _

/-- Every member but the constructor goes by its own name. -/
theorem owns_of_mem {m : Member} (hm : m ∈ f.members)
    (hc : m.isMethodNamed constructorName = false) : f.owns m = true := by
  cases m with
  | property p =>
    exact f.findProperty?_isSome_iff.mpr ⟨p, List.mem_filterMap.mpr ⟨_, hm, rfl⟩, rfl⟩
  | method k =>
    have hsome : (f.findMethod? k.name).isSome = true :=
      f.findMethod?_isSome_iff.mpr ⟨k, List.mem_filterMap.mpr ⟨_, hm, rfl⟩, rfl⟩
    have hk : k.isConstructor = false := by
      rw [← Bool.not_eq_true, isConstructor_iff]
      intro hkey
      rw [Member.isMethodNamed, ClassFile.isMethodNamed, lower_constructorName] at hc
      exact absurd hkey (beq_eq_false_iff_ne.mp hc)
    rw [ClassFile.owns, hk, hsome]
    rfl
  | verbatim t => rfl

/-- The stale accessors of a property that the class did not have are those of a definition new to
it; the constructor is none of them. -/
theorem Grown.of_mem_staleAccessors (h : Grown f g) {property name : Text}
    (hnone : f.findProperty? property = none) (hname : name ∈ staleAccessors g property) :
    f.findMethod? name = none ∧ lower name ≠ constructorName := by
  rw [staleAccessors] at hname
  cases hq : g.findProperty? property with
  | none =>
    rw [hq] at hname
    cases hname
  | some q =>
    rw [hq] at hname
    have hnamed : q.name = property := by simpa using List.find?_some hq
    obtain ⟨e, hdeclared, hall⟩ := h.added property q hnone hq
    have hmem : name ∈ e.accessorNames property := hnamed ▸ hdeclared.mem_accessorNames.mp hname
    refine ⟨hall name hmem, fun heq => e.constructor_notMem property ?_⟩
    exact heq ▸ List.mem_map_of_mem hmem

/-- **Defining a property that the class did not have lets it grow**, whether the property has been
defined in the meantime or not: only new accessors are stale. -/
theorem Grown.redefined (h : Grown f g) (hnone : f.findProperty? p.name = none)
    (hnew : ∀ name ∈ d.accessorNames p.name, f.findMethod? name = none) (hp : p.DeclaredAs d)
    (hframe : Frame g k) (hmembers : k.members.filter f.owns = g.members.filter f.owns)
    (hconstructor : ∀ m, g.constructor? = some m → ∃ m', k.constructor? = some m' ∧
      m.SameBut (fun l => ∃ name, f.findProperty? name = none ∧ l = Render.collectionInit name) m')
    {as : List Accessor} (has : as = d.accessors p.name)
    (hproperties : ∀ other, (placeMethods (as.map (·.method i)) (staleAccessors g p.name)
      k).findProperty? other = if other = p.name then some p else g.findProperty? other) :
    Grown f (placeMethods (as.map (·.method i)) (staleAccessors g p.name) k) := by
  subst has
  have hplaced : ∀ m ∈ (d.accessors p.name).map (·.method i), ∃ name ∈ d.accessorNames p.name,
      m.key = lower name := by
    intro m hm
    obtain ⟨a, ha, rfl⟩ := List.mem_map.mp hm
    exact ⟨a.name, List.mem_map_of_mem ha, rfl⟩
  obtain ⟨hsame, -⟩ := frame_placeMethods k ((d.accessors p.name).map (·.method i))
    (staleAccessors g p.name)
  refine ⟨h.frame.trans (hframe.trans hsame), ?members, ?added, ?constructor⟩
  case members =>
    rw [filter_placeMethods, hmembers, h.members]
    · intro m hm k hk
      obtain ⟨name, hname, hkey⟩ := hplaced m hm
      exact owns_method (hnew name hname) (hk.trans hkey)
    · exact fun name hname k hk => owns_method (h.of_mem_staleAccessors hnone hname).1 hk
  case added =>
    intro name q hname hq
    rw [hproperties] at hq
    split at hq
    · rename_i heq
      cases hq
      exact ⟨d, hp, heq ▸ hnew⟩
    · exact h.added name q hname hq
  case constructor =>
    intro m hm
    obtain ⟨m', hm', hbut⟩ := h.constructor m hm
    obtain ⟨m'', hm'', hbut'⟩ := hconstructor m' hm'
    refine ⟨m'', ?_, hbut.trans hbut'⟩
    rw [ClassFile.constructor?, findMethod?_placeMethods]
    · exact hm''
    · intro m hm heq
      obtain ⟨name, hname, hkey⟩ := hplaced m hm
      refine d.constructor_notMem p.name ?_
      rw [← lower_constructorName, heq, hkey]
      exact List.mem_map_of_mem hname
    · intro name hname heq
      exact (h.of_mem_staleAccessors hnone hname).2 (heq ▸ lower_constructorName)

/-- A field that is new to the class lets it grow. -/
theorem Grown.fieldAdded (h : Grown f g) {name php : Text} (hname : Name name)
    (hphp : IsFieldType php) (type : FieldType) (nullable : Bool)
    (hnone : f.findProperty? name = none)
    (hnew : ∀ accessor ∈ (Definition.field (Render.nullableType php nullable)).accessorNames name,
      f.findMethod? accessor = none) :
    Grown f (fieldAdded i name type php nullable g) := by
  refine h.redefined (k := placeProperty name (fieldProperty name type php nullable)
      (dropCollectionInit name g)) hnone hnew (declaredAs_fieldProperty hname hphp type nullable)
    ((frame_dropCollectionInit g name).1.trans (frame_placeProperty _ name _)) ?_ (fun m hm => ?_)
    rfl (findProperty?_fieldAdded i name type php nullable)
  · have hname : (fieldProperty name type php nullable).name = name := rfl
    rw [filter_placeProperty hname fun r hr => owns_property hnone hr]
    exact filter_dropCollectionInit name fun k hk => owns_constructor hk
  · rw [ClassFile.constructor?, findMethod?_placeProperty]
    exact constructor_dropCollectionInit hm ⟨name, hnone, rfl⟩

/-- A relation that is new to the class lets it grow. -/
theorem Grown.relationAdded (h : Grown f g) (hi : IsIndent f.indent) {property target : Text}
    {r : Relation} (hproperty : Name property) (htarget : Capital target)
    (hother : ∀ o ∈ r.otherProperty, Plain o) (hjoin : ∀ j ∈ r.joinTable, j.IsPlain)
    (hnone : f.findProperty? property = none)
    (hnew : ∀ accessor ∈ (Definition.ofRelation r.kind target).accessorNames property,
      f.findMethod? accessor = none) (hk : relationAdded i r property target g = .ok k) :
    Grown f k := by
  have hframe := frame_placeProperty g property (relationProperty r property target)
  have hfound : ∀ m, g.constructor? = some m →
      (placeProperty property (relationProperty r property target) g).constructor? = some m := by
    intro m hm
    rw [ClassFile.constructor?, findMethod?_placeProperty]
    exact hm
  have hproperties := findProperty?_relationAdded hk
  rw [EntityScaffold.relationAdded] at hk
  cases hchanged : (if r.kind.isCollection then
      collectionEnsured property (placeProperty property (relationProperty r property target) g)
    else .ok (dropCollectionInit property
      (placeProperty property (relationProperty r property target) g))) with
  | error e =>
    rw [hchanged] at hk
    cases hk
  | ok l =>
    rw [hchanged] at hk
    cases hk
    refine h.redefined (p := relationProperty r property target) hnone hnew
      (.relation hproperty htarget hother hjoin) (hframe.trans (frame_constructor _ hchanged).1) ?_
      (fun m hm => ?_) (Definition.accessors_ofRelation r.kind property target).symm hproperties
    · rw [← filter_placeProperty (f := g) (p := relationProperty r property target) rfl
        fun q hq => owns_property hnone hq]
      split at hchanged
      · exact filter_collectionEnsured hchanged fun k hk => owns_constructor hk
      · cases hchanged
        exact filter_dropCollectionInit property fun k hk => owns_constructor hk
    · split at hchanged
      · refine constructor_collectionEnsured ?_ hproperty.plain (hfound m hm) hchanged
          ⟨property, hnone, rfl⟩
        rw [← hframe.indent, ← h.frame.indent]
        exact hi
      · cases hchanged
        exact constructor_dropCollectionInit (hfound m hm) ⟨property, hnone, rfl⟩

/-- **A call that is new to a class and succeeds lets it grow.** -/
theorem Grown.call {e : Desk} {call : Call} (h : Grown f e.file) (hf : IsIndent f.indent)
    (hi : IsIndent i) (hplain : call.HasPlainNames) (hnew : call.IsNewTo f)
    (hrun : ((call.edit i).run e).1 = .ok ()) : Grown f ((call.edit i).run e).2.file := by
  cases call with
  | addField name type phpType nullable =>
    obtain ⟨hname, hphp⟩ := hplain
    rw [Call.edit] at hrun ⊢
    obtain ⟨t, htype, haccepted, hadded⟩ := added_of_addFieldOf hi hname hphp hrun
    have hdefines : (Call.addField name type phpType nullable).defines? = some (name,
        .field (Render.nullableType ((given? phpType).getD t.phpType) nullable)) := by
      rw [Call.defines?, htype]
      rfl
    obtain ⟨hnone, haccessors⟩ := hnew _ hdefines
    rw [hadded]
    exact h.fieldAdded (name_of_isIdentifier hname haccepted) (isFieldType_given hphp t) t nullable
      hnone haccessors
  | addRelation r targetName =>
    have hplain : r.IsPlain ((given? targetName).getD r.targetName) := hplain
    rw [Call.edit] at hrun ⊢
    obtain ⟨property, hproperty, hname, htarget, hadded⟩ := added_of_addRelation hi hplain hrun
    have hdefines : (Call.addRelation r targetName).defines? = some (property,
        .ofRelation r.kind ((given? targetName).getD r.targetName)) := by
      rw [Call.defines?, hproperty]
      rfl
    obtain ⟨hnone, haccessors⟩ := hnew _ hdefines
    exact h.relationAdded hf
      (name_of_isIdentifier (hplain.property _ (eq_some_of_given? hproperty)) hname)
      (capital_of_isClassName hplain.target htarget) hplain.other hplain.joinTable hnone haccessors
      hadded

/-- Growth depends on the members and the frame only. -/
theorem Grown.of_alike (h : Grown f g) (halike : Alike k g) : Grown f k where
  frame := h.frame.trans halike.toFrame.symm
  members := halike.members ▸ h.members
  added name p := by
    rw [halike.findProperty?_eq]
    exact h.added name p
  constructor m hm := by
    rw [ClassFile.constructor?, halike.findMethod?_eq]
    exact h.constructor m hm

end

/-! ## Additions in a row -/

/-- What calls lead to from a class, one after another and each of them new to that class.  A call
may come again.  Between calls a class that is settled may be written and read again. -/
inductive Additions (f : ClassFile) : ClassFile → Prop where
  | none : Additions f f
  | call {d : Desk} {c : Config} {call : Call} (before : Additions f d.file)
      (plain : call.HasPlainNames) (new : call.IsNewTo f)
      (succeeds : ((call.edit c.indent).run d).1 = .ok ()) :
      Additions f ((call.edit c.indent).run d).2.file
  | reload {g k : ClassFile} {path : Option Text} (before : Additions f g) (settled : Settled g)
      (read : ClassFile.parse g.serialize path = .ok k) : Additions f k

section

variable {f g : ClassFile}

/-- **Additions let a class grow.** -/
theorem Additions.grown (h : Additions f g) (hf : IsIndent f.indent) : Grown f g := by
  induction h with
  | none => exact .refl f
  | @call d c call before plain new succeeds ih =>
    exact ih.call hf (isIndent_config c) plain new succeeds
  | @reload g k path before settled read ih =>
    rw [settled.parse_serialize path] at read
    cases read
    exact ih.of_alike (alike_normalized g path)

/-- **All members but the constructor stay**, to the letter and in their order. -/
theorem Grown.members_sublist (h : Grown f g) :
    (f.members.filter (!·.isMethodNamed constructorName)).Sublist g.members := by
  have hown : (f.members.filter (!·.isMethodNamed constructorName)).filter f.owns =
      f.members.filter (!·.isMethodNamed constructorName) := by
    rw [List.filter_eq_self]
    intro m hm
    obtain ⟨hm, hc⟩ := List.mem_filter.mp hm
    exact owns_of_mem hm (by simpa using hc)
  rw [← hown]
  refine (List.filter_sublist.filter f.owns).trans ?_
  rw [← h.members]
  exact List.filter_sublist

/-- The solid characters of a class that is written. -/
theorem solid_serialize (hi : IsIndent g.indent) : solid g.serialize =
    (if startsWith openTag (formatted g.normalized.render) then [] else openTag) ++
      (solid g.opening ++ (g.members.flatMap fun m => solid m.text) ++ solid g.closing) := by
  rw [ClassFile.serialize, solid_normalizeWhitespace, solid_render (f := g.normalized) hi]
  simp only [ClassFile.normalized, solidOf_spaced]

/-- **What stands in a hand-written member stands in the text that is written after additions**,
white space apart: comments as well as code, in the one place and without anything in between. -/
theorem Additions.keeps_text {t : Text} {path : Option Text}
    (hparse : ClassFile.parse t path = .ok f) (h : Additions f g) {m : Member} (hm : m ∈ f.members)
    (hc : m.isMethodNamed constructorName = false) {piece : Text} (hpiece : piece <:+: m.text) :
    solid piece <:+: solid g.serialize := by
  obtain ⟨f', hf', rfl⟩ := parseText_of_parse hparse
  have hindent := (solid_of_parseText hf').2
  have hgrown := h.grown hindent
  have hmem : m ∈ g.members :=
    hgrown.members_sublist.subset (List.mem_filter.mpr ⟨hm, by simpa using hc⟩)
  have hg : IsIndent g.indent := hgrown.frame.indent ▸ hindent
  obtain ⟨as, bs, hsplit⟩ := List.append_of_mem hmem
  obtain ⟨before, behind, htext⟩ := hpiece
  rw [solid_serialize hg, hsplit, List.flatMap_append, List.flatMap_cons, ← htext, solid_append,
    solid_append]
  refine ⟨(if startsWith openTag (formatted g.normalized.render) then [] else openTag) ++
    solid g.opening ++ (as.flatMap fun m => solid m.text) ++ solid before,
    solid behind ++ (bs.flatMap fun m => solid m.text) ++ solid g.closing, ?_⟩
  simp only [List.append_assoc]

end

end EntityScaffold
