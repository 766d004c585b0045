import EntityScaffold.Proofs.EditFailures
import EntityScaffold.Proofs.Resolved
import EntityScaffold.Proofs.Validated

/-!
# What an accepted plan cannot be refused for

The names and sides of a plan are looked at twice: when the plan is validated, and when its
relations are resolved and its edits made.  What validation has accepted is not refused later, with one
exception: the property that the other side of a relation gets where none is given.

* `Accepted` — what validation has found in order.
* `Accepted.resolves`, `Accepted.of_inverseSide` — relations are resolved, and have an inverse side.
* `Accepted.failsWith_edit` — the edits are not refused.
* `Accepted.failsWith_inverse` — nor are those of the inverse sides whose properties have accepted
  names.
-/

set_option autoImplicit false

namespace EntityScaffold

open Text

/-! ## Names with and without their namespace -/

/-- A short name is its own. -/
theorem shortName_shortName (name : Text) : shortName (shortName name) = shortName name :=
  shortName_of_notMem fun h => by simpa using List.mem_takeWhile_imp (List.mem_reverse.mp h)

/-- **A qualified name has the same short name.** -/
theorem shortName_qualify (name ns : Text) : shortName (qualify name ns) = shortName name := by
  rw [qualify]
  cases hqualified : name.contains '\\' with
  | false =>
    have hnot : '\\' ∉ name := by simpa using hqualified
    rw [if_neg Bool.false_ne_true]
    dsimp only
    split
    · rfl
    · rw [shortName_append hnot, shortName_of_notMem hnot]
  | true =>
    rw [if_pos rfl]
    -- the backslashes at the beginning are at the end of the reversed name
    have hsplit : name.reverse =
        (name.dropWhile (· == '\\')).reverse ++ (name.takeWhile (· == '\\')).reverse := by
      rw [← List.reverse_append, List.takeWhile_append_dropWhile]
    have hlead : (name.takeWhile (· == '\\')).reverse.takeWhile (· != '\\') = [] := by
      refine List.takeWhile_eq_nil_iff.mpr fun h => ?_
      have hmem := List.mem_reverse.mp (List.getElem_mem h)
      simpa using List.mem_takeWhile_imp hmem
    rw [shortName, shortName, hsplit, List.takeWhile_append]
    split
    · rename_i hall
      rw [hlead, List.append_nil]
      exact congrArg List.reverse
        (List.IsPrefix.eq_of_length (List.takeWhile_prefix _) hall)
    · rfl

theorem hasShape_ne_nil {first rest : Char → Bool} {least : Nat} {name : Text}
    (h : hasShape first rest least name = true) : name ≠ [] := by
  rintro rfl
  cases h

/-- The characters of a name are those that its shape allows, and perhaps a line feed. -/
theorem mem_of_hasShape {first rest : Char → Bool} {least : Nat} {name : Text}
    (h : hasShape first rest least name = true) {c : Char} (hc : c ∈ name) :
    first c = true ∨ rest c = true ∨ c = '\n' := by
  have hmem : c ∈ dropFinalLineFeed name ∨ c = '\n' := by
    rw [dropFinalLineFeed]
    split
    · rename_i hlast
      rw [← List.dropLast_append_getLast? '\n' hlast, List.mem_append, List.mem_singleton] at hc
      exact hc
    · exact .inl hc
  rcases hmem with hmem | rfl
  · rw [hasShape] at h
    cases hname : dropFinalLineFeed name with
    | nil =>
      rw [hname] at hmem
      cases hmem
    | cons d t =>
      rw [hname] at h hmem
      simp only [Bool.and_eq_true, List.all_eq_true] at h
      rcases List.mem_cons.mp hmem with rfl | hmem
      · exact .inl h.1.1
      · exact .inr (.inl (h.1.2 c hmem))
  · exact .inr (.inr rfl)

theorem notMem_of_isEntityName {name : Text} (h : isEntityName name = true) : '\\' ∉ name := by
  rw [isEntityName, Bool.and_eq_true] at h
  intro hmem
  rcases mem_of_hasShape h.1 hmem with hc | hc | hc <;> revert hc <;> decide

theorem ne_nil_of_isIdentifier {name : Text} (h : isIdentifier name = true) : name ≠ [] := by
  rw [isIdentifier, Bool.and_eq_true] at h
  exact hasShape_ne_nil h.1

theorem ne_nil_of_isClassName {name : Text} (h : isClassName name = true) : name ≠ [] := by
  rw [isClassName, Bool.and_eq_true] at h
  exact hasShape_ne_nil h.1

theorem given?_of_ne_nil {t : Text} (h : t ≠ []) : given? (some t) = some t := by
  cases t with
  | nil => exact absurd rfl h
  | cons c t => rfl

/-! ## Accepted plans -/

namespace Validation

/-- What validation has found in order. -/
structure Accepted (p : Plan) : Prop extends ValidPlan p where
  name : isEntityName p.name = true
  owners : ∀ r ∈ p.relations, ∃ owns, ownership r.kind r.owning = .ok owns

section

variable {p : Plan} {r s : Relation} {c : Config}

/-- **A plan in which no errors are found is accepted.** -/
theorem accepted_of_isValid {known : Option (List Text)}
    (h : (validatePlan p known).isValid = true) : Accepted p := by
  have hall := harmless_of_isValid h
  simp only [validatePlan, harmless_append] at hall
  obtain ⟨⟨⟨⟨hname, -⟩, -⟩, -⟩, -⟩ := hall
  refine { validPlan_of_isValid h with name := of_harmless_ite rfl hname, owners := fun r hr => ?_ }
  have heach := relationIssues_of_isValid h hr
  simp only [relationIssues, harmless_append] at heach
  have howns := heach.1.1.1.2
  cases hownership : ownership r.kind r.owning with
  | ok owns => exact ⟨owns, rfl⟩
  | error e =>
    rw [hownership] at howns
    cases howns _ (List.mem_singleton_self _)

theorem Accepted.resolves (h : Accepted p) (hr : r ∈ p.relations) :
    ∃ s, r.resolve p.name = .ok s := by
  obtain ⟨owns, howns⟩ := h.owners r hr
  rw [Relation.resolve, howns]
  exact ⟨_, rfl⟩

theorem entityClass_ne_nil {name : Text} (h : shortName name ≠ []) (c : Config) :
    c.entityClass name ≠ [] := by
  intro hnil
  rw [← shortName_qualify name c.entityNamespace] at h
  rw [Config.entityClass] at hnil
  rw [hnil] at h
  exact h rfl

/-- The entity's name in a reference to it. -/
theorem Accepted.shortName_entityClass (h : Accepted p) (c : Config) :
    shortName (c.entityClass p.name) = p.name := by
  rw [Config.entityClass, shortName_qualify, shortName_of_notMem (notMem_of_isEntityName h.name)]

theorem Accepted.otherProperty (hs : r.Resolved p.name s) (hwants : r.wantsInverse = true)
    (hother : otherOrSuggested p r ≠ []) :
    given? s.otherProperty = some (otherOrSuggested p r) := by
  rw [hs.other, hwants, Bool.true_and]
  rw [otherOrSuggested] at hother ⊢
  cases hgiven : given? r.otherProperty with
  | none =>
    rw [hgiven] at hother
    exact given?_of_ne_nil hother
  | some t =>
    exact (congrArg given? (eq_some_of_given? hgiven)).trans (given?_given hgiven)

/-- **A relation of an accepted plan has an inverse side**, unless nothing can be suggested for the
name of its property. -/
theorem Accepted.of_inverseSide (h : Accepted p) (hr : r ∈ p.relations) (hs : r.Resolved p.name s)
    {e : Failure} (he : s.inverseSide p.name c = .error e) :
    e = .refused .unresolved ∧ r.wantsInverse = true ∧ otherOrSuggested p r = [] := by
  rw [Relation.inverseSide, hs.wantsInverse] at he
  cases hwants : r.wantsInverse with
  | false =>
    rw [hwants] at he
    cases he
  | true =>
    have hproperty : given? s.property = some r.propertyOrSuggested := by
      rw [hs.property]
      exact given?_of_ne_nil (ne_nil_of_isIdentifier (h.properties r hr))
    have htarget : c.entityClass s.target ≠ [] := by
      refine entityClass_ne_nil ?_ c
      rw [hs.target]
      exact ne_nil_of_isClassName (h.targets r hr)
    have hname : c.entityClass p.name ≠ [] := by
      refine entityClass_ne_nil ?_ c
      rw [shortName_of_notMem (notMem_of_isEntityName h.name)]
      exact ne_nil_of_isClassName (isClassName_of_isEntityName h.name)
    by_cases hother : otherOrSuggested p r = []
    · refine ⟨?_, rfl, hother⟩
      simp only [hwants, Bool.not_true, Bool.false_eq_true, if_false, hproperty] at he
      split at he
      · simp [Relation.namelessFaults, htarget, hname] at he
      · exact (Except.error.inj he).symm
    · simp [hwants, hproperty, Accepted.otherProperty hs hwants hother, Relation.namelessFaults,
        htarget, hname] at he

/-- **The edit of a relation is not refused.** -/
theorem Accepted.failsWith_edit (h : Accepted p) (hr : r ∈ p.relations) (hs : r.Resolved p.name s)
    (i : Text) : (Edit.addRelation i s none).FailsWith fun e => ∀ x, e ≠ .refused x := by
  refine Edit.failsWith_addRelation (fun _ _ => nofun) (fun hclass => ?_) fun hproperty => ?_
  · have htarget : isClassName s.targetName = true := hs.targetName ▸ h.targets r hr
    rw [show (given? none).getD s.targetName = s.targetName from rfl, htarget] at hclass
    cases hclass
  · have hid := h.properties r hr
    have hgiven : given? s.property = some r.propertyOrSuggested := by
      rw [hs.property]
      exact given?_of_ne_nil (ne_nil_of_isIdentifier hid)
    rw [hproperty _ hgiven] at hid
    cases hid

/-- **Nor is that of its inverse side**, if the property has an accepted name. -/
theorem Accepted.failsWith_inverse (h : Accepted p) {side : InverseSide} (hs : r.Resolved p.name s)
    (hside : side.IsFor c p.name s) (hother : isIdentifier (otherOrSuggested p r) = true)
    (i : Text) :
    (Edit.addRelation i side.toRelation (some side.backReferenceName)).FailsWith
      fun e => ∀ x, e ≠ .refused x := by
  have hclass := isClassName_of_isEntityName h.name
  have hback : given? (some side.backReferenceName) = some p.name := by
    rw [InverseSide.backReferenceName, hside.backReference, h.shortName_entityClass]
    exact given?_of_ne_nil (ne_nil_of_isClassName hclass)
  have hwants : r.wantsInverse = true := hs.wantsInverse ▸ hside.wanted
  have hproperty : side.property = otherOrSuggested p r := hs.other_eq hwants hside.property
  refine Edit.failsWith_addRelation (fun _ _ he => ?_) (fun hrefused => ?_) fun hrefused => ?_
  · cases he
  · rw [hback, Option.getD_some, hclass] at hrefused
    cases hrefused
  · have hgiven : given? side.toRelation.property = some (otherOrSuggested p r) :=
      hproperty ▸ given?_given hside.property
    rw [hrefused _ hgiven] at hother
    cases hother

end

end Validation

end EntityScaffold
