import EntityScaffold.Proofs.Accepted

/-!
# The two sides of a relation

A resolved relation and its inverse side are one relation, seen from its two ends.  Neither leaves
anything open, and the inverse side of the inverse side leads back to where it has come from.

* `Relation.Settled` — nothing is left open; `Settled.resolve_eq`: resolving changes nothing.
* `Relation.Opposite` — two sides of one relation.
* `InverseSide.IsFor.settled`, `InverseSide.IsFor.opposite` — what an inverse side is to the
  relation that calls for it.
* `inverseSide_leads_back` — a relation, its inverse side, and the way back.
-/

set_option autoImplicit false

namespace EntityScaffold

open Text

/-! ## Qualified names -/

/-- A qualified name begins with no backslash. -/
theorem head?_qualify (name ns : Text) : ∀ c ∈ (qualify name ns).head?, c ≠ '\\' := by
  have hnot : ∀ {t : Text}, '\\' ∉ t → ∀ c ∈ t.head?, c ≠ '\\' := by
    rintro t ht c hc rfl
    exact ht (List.mem_of_mem_head? hc)
  intro c hc
  rw [qualify] at hc
  split at hc
  · simpa using head?_dropWhile (· == '\\') name c hc
  · rename_i hname
    have hname : '\\' ∉ name := by simpa using hname
    dsimp only at hc
    split at hc
    · exact hnot hname c hc
    · rename_i hns
      obtain ⟨d, t, hd⟩ := List.exists_cons_of_ne_nil hns
      have hd' := head?_trimWhile (· == '\\') ns d (by rw [hd]; rfl)
      rw [hd] at hc
      cases hc
      simpa using hd'

theorem qualify_ne_nil {name : Text} (h : name ≠ []) (hhead : ∀ c ∈ name.head?, c ≠ '\\')
    (ns : Text) : qualify name ns ≠ [] := by
  rw [qualify]
  split
  · rw [dropWhile_of_head fun c hc => by simpa using hhead c hc]
    exact h
  · dsimp only
    split
    · exact h
    · simp

/-- The class of an entity can be named by its qualified name. -/
theorem entityClass_entityClass_ne_nil {c : Config} {name : Text} (h : c.entityClass name ≠ []) :
    c.entityClass (c.entityClass name) ≠ [] :=
  qualify_ne_nil h (head?_qualify name c.entityNamespace) c.entityNamespace

/-! ## Settled relations -/

/-- Whether nothing in a relation is left open. -/
structure Relation.Settled (r : Relation) : Prop where
  property : given? r.property = r.property
  named : r.property ≠ none
  owner : ownership r.kind r.owning = .ok r.isOwningSide
  other : r.wantsInverse = true → given? r.otherProperty ≠ none
  joinTable : r.joinTable.isSome = (r.kind = .manyToMany && r.isOwningSide)
  nullable : r.kind.isCollection = true → r.nullable = false

/-- **Resolving a settled relation changes nothing**, whichever entity has it. -/
theorem Relation.Settled.resolve_eq {r : Relation} (h : r.Settled) (name : Text) :
    r.resolve name = .ok r := by
  obtain ⟨property, hproperty⟩ := Option.ne_none_iff_exists'.mp h.named
  have hname : some r.propertyOrSuggested = r.property := by
    rw [Relation.propertyOrSuggested, h.property, hproperty]
    rfl
  have hother : (r.wantsInverse && (given? r.otherProperty).isNone) = false := by
    cases hwants : r.wantsInverse with
    | false => rfl
    | true =>
      rw [Bool.true_and, Option.isNone_eq_false_iff, Option.isSome_iff_ne_none]
      exact h.other hwants
  have htable : (if r.kind = .manyToMany && r.isOwningSide then
      some (r.joinTable.getD (defaultJoinTable name r.targetName)) else none) = r.joinTable := by
    have hsome := h.joinTable
    cases howned : (decide (r.kind = .manyToMany) && r.isOwningSide) with
    | false =>
      rw [howned, Option.isSome_eq_false_iff, Option.isNone_iff_eq_none] at hsome
      rw [hsome]
      rfl
    | true =>
      rw [howned] at hsome
      obtain ⟨j, hj⟩ := Option.isSome_iff_exists.mp hsome
      rw [hj]
      rfl
  have hnullable : (r.nullable && !r.kind.isCollection) = r.nullable := by
    cases hcollection : r.kind.isCollection with
    | false => exact Bool.and_true _
    | true =>
      rw [h.nullable hcollection]
      rfl
  rw [Relation.resolve, h.owner]
  simp only [bind, Except.bind, pure, Except.pure, hname, hother, htable, hnullable,
    Bool.false_eq_true, if_false]

section

variable {r s : Relation} {self : Text} {c : Config} {side : InverseSide}

/-- **A relation that has been resolved is settled**, if its property and that of the other side
have got names. -/
theorem settled_of_resolve (h : r.resolve self = .ok s) (hnamed : given? s.property ≠ none)
    (hother : given? s.otherProperty ≠ none) : s.Settled := by
  obtain ⟨property, hproperty⟩ := Option.ne_none_iff_exists'.mp hnamed
  have hsome := eq_some_of_given? hproperty
  rw [Relation.resolve] at h
  cases howns : ownership r.kind r.owning with
  | error e =>
    rw [howns] at h
    cases h
  | ok owns =>
    rw [howns] at h
    cases h
    exact {
      property := hproperty.trans hsome.symm
      named := Option.some_ne_none _
      owner := howns
      other := fun _ => hother
      joinTable := by cases r.kind <;> cases owns <;> rfl
      nullable := fun hcollection => by simp [hcollection] }

/-! ## Opposite sides -/

/-- Two sides of one relation: their kinds are inverse, one of them owns it, each has the name of
the other's property, and no side but the owning one of a many-to-many relation has a join
table. -/
structure Relation.Opposite (s t : Relation) : Prop where
  kind : t.kind = s.kind.inverse
  owning : t.isOwningSide = !s.isOwningSide
  property : t.property = s.otherProperty
  other : t.otherProperty = s.property
  joinTable : s.joinTable.isSome = (s.kind = .manyToMany && s.isOwningSide)
  inverseJoinTable : t.joinTable.isSome = (t.kind = .manyToMany && t.isOwningSide)

namespace InverseSide.IsFor

theorem given_property (h : side.IsFor c self s) :
    given? (some side.property) = some side.property :=
  given?_given h.property

/-- An inverse side owns its relation in accordance with its kind. -/
theorem ownership_eq (h : side.IsFor c self s)
    (howner : ownership s.kind s.owning = .ok s.isOwningSide) :
    ownership side.kind (some side.owning) = .ok side.owning := by
  rw [h.kind, h.owning]
  cases hkind : s.kind with
  | oneToOne => cases s.isOwningSide <;> rfl
  | manyToMany => cases s.isOwningSide <;> rfl
  | oneToMany =>
    rw [hkind, ownership] at howner
    split at howner
    · cases howner
    · rw [← Except.ok.inj howner]
      rfl
  | manyToOne =>
    rw [hkind, ownership] at howner
    split at howner
    · cases howner
    · rw [← Except.ok.inj howner]
      rfl

theorem joinTable_isSome_eq (h : side.IsFor c self s) :
    side.joinTable.isSome = (side.kind = .manyToMany && side.owning) := by
  rw [h.joinTable, h.kind, h.owning]
  cases s.kind <;> cases s.isOwningSide <;> rfl

/-- What is declared on the target has the join table of the inverse side. -/
theorem toRelation_joinTable (h : side.IsFor c self s) :
    side.toRelation.joinTable = side.joinTable := by
  have htable := h.joinTable_isSome_eq
  rw [InverseSide.toRelation]
  dsimp only
  split
  · rfl
  · rename_i howning
    rw [Bool.not_eq_true] at howning
    rw [howning, Bool.and_false, Option.isSome_eq_false_iff, Option.isNone_iff_eq_none] at htable
    exact htable.symm

/-- **An inverse side is settled**, whether or not the way back is asked for. -/
theorem settled (h : side.IsFor c self s) (hs : s.Settled) (wants : Bool) :
    { side.toRelation with wantsInverse := wants }.Settled where
  property := h.given_property
  named := Option.some_ne_none _
  owner := h.ownership_eq hs.owner
  other _ := by
    obtain ⟨property, hproperty⟩ := Option.ne_none_iff_exists'.mp h.named
    have hgiven : given? s.property = some property := h.otherProperty.trans hproperty
    have hother : side.toRelation.otherProperty = some property := hproperty
    rw [hother, given?_given hgiven]
    exact Option.some_ne_none _
  joinTable := (congrArg Option.isSome h.toRelation_joinTable).trans h.joinTable_isSome_eq
  nullable _ := by
    have hnullable : side.toRelation.nullable = (side.nullable && !side.kind.isCollection) := rfl
    rw [hnullable, h.nullable]
    rfl

/-- **A settled relation and its inverse side are opposite sides.** -/
theorem opposite (h : side.IsFor c self s) (hs : s.Settled) : s.Opposite side.toRelation where
  kind := h.kind
  owning := h.owning
  property := (eq_some_of_given? h.property).symm
  other := h.otherProperty.symm.trans hs.property
  joinTable := hs.joinTable
  inverseJoinTable := (h.settled hs false).joinTable

end InverseSide.IsFor

/-! ## The way back -/

/-- A settled relation has an inverse side if one is asked for and the names of both entities make
names of classes. -/
theorem Relation.Settled.exists_inverseSide (h : s.Settled) (hwants : s.wantsInverse = true)
    (hentity : c.entityClass s.target ≠ []) (hself : c.entityClass self ≠ []) :
    ∃ side, s.inverseSide self c = .ok (some side) := by
  obtain ⟨property, hproperty⟩ := Option.ne_none_iff_exists'.mp (h.property ▸ h.named)
  obtain ⟨other, hother⟩ := Option.ne_none_iff_exists'.mp (h.other hwants)
  have hnamed : Relation.namelessFaults (c.entityClass s.target) (c.entityClass self) = [] := by
    rw [Relation.namelessFaults, if_neg hentity, if_neg hself]
    rfl
  rw [Relation.inverseSide]
  simp only [hwants, hproperty, hother, hnamed]
  exact ⟨_, rfl⟩

theorem entityClass_ne_nil_of_inverseSide (h : s.inverseSide self c = .ok (some side)) :
    c.entityClass s.target ≠ [] ∧ c.entityClass self ≠ [] := by
  rw [Relation.inverseSide] at h
  split at h
  · cases h
  · split at h
    · dsimp only at h
      split at h
      · rename_i hnone
        rw [Relation.namelessFaults, List.append_eq_nil_iff] at hnone
        refine ⟨fun hnil => ?_, fun hnil => ?_⟩
        · rw [if_pos hnil] at hnone
          cases hnone.1
        · rw [if_pos hnil] at hnone
          cases hnone.2
      · cases h
    · cases h

/-- The relation of an inverse side, with the way back asked for. -/
def InverseSide.asking (side : InverseSide) : Relation :=
  { side.toRelation with wantsInverse := true }

/-- **The inverse side of an inverse side** is the relation that it has come from. -/
theorem InverseSide.IsFor.back (h : side.IsFor c self s) (hs : s.Settled) {name : Text}
    {back : InverseSide} (hback : back.IsFor c name side.asking) :
    back.entityName = shortName self ∧ some back.property = s.property ∧ back.kind = s.kind ∧
      back.owning = s.isOwningSide ∧ back.otherProperty = s.otherProperty := by
  refine ⟨?_, ?_, ?_, ?_, ?_⟩
  · have htarget : side.asking.target = c.entityClass self := h.backReference
    rw [InverseSide.entityName, hback.entity, htarget, Config.entityClass, shortName_qualify,
      Config.entityClass, shortName_qualify]
  · have hother : side.asking.otherProperty = s.property := (h.opposite hs).other
    have := hback.property
    rw [hother, hs.property] at this
    exact this.symm
  · have hkind : side.asking.kind = s.kind.inverse := h.kind
    rw [hback.kind, hkind, RelationKind.inverse_inverse]
  · have howning : side.asking.isOwningSide = !s.isOwningSide := h.owning
    rw [hback.owning, howning, Bool.not_not]
  · have hproperty : given? side.asking.property = some side.property := h.given_property
    rw [← hback.otherProperty, hproperty, eq_some_of_given? h.property]

/-- **A relation and its inverse side are opposite sides, both settled, and the inverse side leads
back**: seen from its own entity, under any name of it, its inverse side is on the entity that the
relation belongs to, and is that relation. -/
theorem inverseSide_leads_back {side? : Option InverseSide} (hwants : r.wantsInverse = true)
    (hresolve : r.resolve self = .ok s) (hinverse : s.inverseSide self c = .ok side?) :
    ∃ side, side? = some side ∧ s.Opposite side.toRelation ∧
      side.joinTable = side.toRelation.joinTable ∧
      (∀ name, s.resolve name = .ok s ∧ side.toRelation.resolve name = .ok side.toRelation ∧
        side.asking.resolve name = .ok side.asking) ∧
      c.entityClass side.entity ≠ [] ∧
      (side.entityName ≠ [] → c.entityClass side.entityName ≠ []) ∧
      ∀ name, c.entityClass name ≠ [] → ∃ back,
        side.asking.inverseSide name c = .ok (some back) ∧ back.entityName = shortName self ∧
        some back.property = s.property ∧ back.kind = s.kind ∧ back.owning = s.isOwningSide ∧
        back.otherProperty = some side.property := by
  have hasked : s.wantsInverse = true := (resolved_of_resolve hresolve).wantsInverse.trans hwants
  cases side? with
  | none =>
    rw [wantsInverse_of_none hinverse] at hasked
    cases hasked
  | some side =>
    have hfor := isFor_of_inverseSide hinverse
    obtain ⟨htarget, hself⟩ := entityClass_ne_nil_of_inverseSide hinverse
    have hs : s.Settled := settled_of_resolve hresolve (hfor.otherProperty ▸ hfor.named)
      (hfor.property ▸ Option.some_ne_none _)
    refine ⟨side, rfl, hfor.opposite hs, hfor.toRelation_joinTable.symm, fun name =>
      ⟨hs.resolve_eq name, (hfor.settled hs false).resolve_eq name,
        (hfor.settled hs true).resolve_eq name⟩, ?_, fun hentity => ?_, fun name hname => ?_⟩
    · rw [hfor.entity]
      exact entityClass_entityClass_ne_nil htarget
    · have hshort : shortName side.entityName = side.entityName := shortName_shortName side.entity
      exact Validation.entityClass_ne_nil (by rwa [hshort]) c
    · have hback : c.entityClass side.asking.target ≠ [] := by
        have hreference : side.asking.target = c.entityClass self := hfor.backReference
        rw [hreference]
        exact entityClass_entityClass_ne_nil hself
      obtain ⟨back, hinverse'⟩ := (hfor.settled hs true).exists_inverseSide rfl hback hname
      obtain ⟨hentity, hproperty, hkind, howning, hother⟩ :=
        hfor.back hs (isFor_of_inverseSide hinverse')
      exact ⟨back, hinverse', hentity, hproperty, hkind, howning,
        hother.trans (eq_some_of_given? hfor.property)⟩

/-- The tags of a post, on the side that does not own them. -/
theorem inverseSide_leads_back_to_tags :
    let r : Relation :=
      { kind := .manyToMany, target := "Tag", owning := some false, wantsInverse := true }
    ∃ s side, r.wantsInverse = true ∧ r.resolve "Post" = .ok s ∧
      s.inverseSide "Post" {} = .ok (some side) ∧ s.Opposite side.toRelation ∧
      side.joinTable = some ⟨"post_tag", "tag_id", "post_id"⟩ ∧
      (side.toRelation.resolve "Tag" = .ok side.toRelation) ∧
      ∃ back, side.asking.inverseSide "Tag" {} = .ok (some back) ∧ back.entityName = "Post" ∧
        back.property = "tags" ∧ back.kind = .manyToMany ∧ back.owning = false := by
  intro r
  let s : Relation :=
    { r with property := some "tags", isOwningSide := false, otherProperty := some "posts" }
  let side : InverseSide := {
    entity := "App\\Entity\\Tag"
    property := "posts"
    kind := .manyToMany
    backReference := "App\\Entity\\Post"
    otherProperty := some "tags"
    owning := true
    joinTable := some ⟨"post_tag", "tag_id", "post_id"⟩ }
  have hresolve : r.resolve "Post" = .ok s := by decide +kernel
  have hinverse : s.inverseSide "Post" {} = .ok (some side) := by decide +kernel
  obtain ⟨_, hside, hopposite, -, hresolves, -, -, hback⟩ :=
    inverseSide_leads_back (c := {}) rfl hresolve hinverse
  cases hside
  obtain ⟨back, hinverse', hentity, hproperty, hkind, howning, -⟩ := hback "Tag" (by decide)
  exact ⟨s, side, rfl, hresolve, hinverse, hopposite, rfl, (hresolves "Tag").2.1, back, hinverse',
    hentity.trans (by decide), Option.some.inj hproperty, hkind, howning⟩

end

end EntityScaffold
