import EntityScaffold.Validation.Rules
import Mathlib.Data.List.Nodup

/-!
# What a valid plan keeps

* `inverses` — the inverse sides that a plan calls for, each as its target and property.
* `ValidPlan` — names are accepted, and none is planned twice.
* `validPlan_of_isValid` — validation finds no errors in such plans only.
* `declarations`, `nodup_declarations_iff` — what a plan declares, and when nothing is declared
  twice.
-/

set_option autoImplicit false

namespace EntityScaffold.Validation

open Text

/-- The inverse sides that relations call for, as targets and properties. -/
def inverses (p : Plan) (rs : List Relation) : List (Text × Text) :=
  (rs.filter (·.wantsInverse)).map fun r => (r.targetName, otherOrSuggested p r)

theorem inverses_cons (p : Plan) (r : Relation) (rs : List Relation) :
    inverses p (r :: rs) =
      if r.wantsInverse then (r.targetName, otherOrSuggested p r) :: inverses p rs
      else inverses p rs := by
  cases h : r.wantsInverse <;> simp [inverses, h]

/-- A plan without errors. -/
structure ValidPlan (p : Plan) : Prop where
  fields : ∀ f ∈ p.fields, isIdentifier f.name = true
  properties : ∀ r ∈ p.relations, isIdentifier r.propertyOrSuggested = true
  targets : ∀ r ∈ p.relations, isClassName r.targetName = true
  names : (p.fields.map (·.name) ++ p.relations.map (·.propertyOrSuggested)).Nodup
  inverses : (inverses p p.relations).Nodup

/-- Issues none of which is an error. -/
def Harmless (is : Issues) : Prop := ∀ i ∈ is, i.isError = false

theorem harmless_append {is js : Issues} : Harmless (is ++ js) ↔ Harmless is ∧ Harmless js := by
  simp only [Harmless, List.mem_append, or_imp, forall_and]

theorem harmless_of_isValid {is : Issues} (h : is.isValid = true) : Harmless is := by
  rw [Issues.isValid, Bool.not_eq_true', List.any_eq_false] at h
  exact fun i hi => by simpa using h i hi

/-- Where an issue is found unless `c`, and the issue is an error, there is `c`. -/
theorem of_harmless_ite {c : Bool} {i : Issue} (hi : i.isError = true)
    (h : Harmless (if c then [] else [i])) : c = true := by
  cases c with
  | true => rfl
  | false =>
    have := h i (by simp)
    rw [hi] at this
    cases this

variable {p : Plan}

theorem fieldNames_of_harmless (h : Harmless (fieldNames p)) :
    ∀ f ∈ p.fields, isIdentifier f.name = true := by
  intro f hf
  cases hname : isIdentifier f.name with
  | true => rfl
  | false =>
    have hmem : f ∈ p.fields.filter fun f => !isIdentifier f.name := by simp [hf, hname]
    cases h _ (List.mem_map_of_mem hmem)

theorem nodup_of_duplicateProperties {seen names : List Text}
    (h : Harmless (duplicateProperties p seen names)) :
    names.Nodup ∧ ∀ name ∈ names, name ∉ seen := by
  induction names generalizing seen with
  | nil => exact ⟨List.nodup_nil, fun _ h => absurd h List.not_mem_nil⟩
  | cons name more ih =>
    rw [duplicateProperties, harmless_append] at h
    obtain ⟨hnodup, hfresh⟩ := ih h.2
    have hname : name ∉ seen := by
      intro hm
      have hcontains : seen.contains name = true := by simpa using hm
      rw [hcontains] at h
      cases h.1 _ (List.mem_singleton_self _)
    refine ⟨List.nodup_cons.mpr ⟨fun hm => hfresh name hm List.mem_cons_self, hnodup⟩, ?_⟩
    intro other hother
    rcases List.mem_cons.mp hother with rfl | hother
    · exact hname
    · exact fun hm => hfresh other hother (List.mem_cons_of_mem name hm)

theorem nodup_of_duplicateInverses {seen : List ((Text × Text) × Text)} {rs : List Relation}
    (h : Harmless (duplicateInverses p seen rs)) :
    (inverses p rs).Nodup ∧ ∀ key ∈ inverses p rs, key ∉ seen.map Prod.fst := by
  induction rs generalizing seen with
  | nil => exact ⟨List.nodup_nil, fun _ h => absurd h List.not_mem_nil⟩
  | cons r more ih =>
    rw [duplicateInverses] at h
    rw [inverses_cons]
    cases hwants : r.wantsInverse with
    | false =>
      rw [hwants] at h
      exact ih h
    | true =>
      simp only [hwants, Bool.not_true, Bool.false_eq_true, if_false] at h
      rw [if_pos rfl]
      split at h
      · cases h _ List.mem_cons_self
      · rename_i hlookup
        obtain ⟨hnodup, hfresh⟩ := ih h
        have hkey : (r.targetName, otherOrSuggested p r) ∉ seen.map Prod.fst := by
          intro hm
          obtain ⟨pair, hpair, heq⟩ := List.mem_map.mp hm
          have := List.lookup_eq_none_iff.mp hlookup pair hpair
          rw [heq] at this
          simp at this
        refine ⟨List.nodup_cons.mpr ⟨fun hm => hfresh _ hm (by simp), hnodup⟩, ?_⟩
        intro key hm
        rcases List.mem_cons.mp hm with rfl | hm
        · exact hkey
        · exact fun hseen => hfresh key hm (by simp [hseen])

theorem names_of_relationIssues {known : Option (List Text)} {r : Relation}
    (h : Harmless (relationIssues p known r)) :
    isIdentifier r.propertyOrSuggested = true ∧ isClassName r.targetName = true := by
  simp only [relationIssues, harmless_append] at h
  exact ⟨of_harmless_ite rfl h.1.1.1.1.1.1, of_harmless_ite rfl h.1.1.1.1.1.2⟩

theorem relationIssues_of_isValid {known : Option (List Text)}
    (h : (validatePlan p known).isValid = true) {r : Relation} (hr : r ∈ p.relations) :
    Harmless (relationIssues p (known.map (withOwn p)) r) := by
  have hall := harmless_of_isValid h
  simp only [validatePlan, harmless_append] at hall
  exact fun i hi => hall.1.2 i (List.mem_flatMap.mpr ⟨r, hr, hi⟩)

/-- **A plan in which no errors are found is valid.** -/
theorem validPlan_of_isValid {known : Option (List Text)}
    (h : (validatePlan p known).isValid = true) : ValidPlan p := by
  have hall := harmless_of_isValid h
  simp only [validatePlan, duplicates, harmless_append] at hall
  obtain ⟨⟨⟨⟨-, hfields⟩, hproperties, hinverses⟩, -⟩, -⟩ := hall
  exact {
    fields := fieldNames_of_harmless hfields
    properties := fun r hr => (names_of_relationIssues (relationIssues_of_isValid h hr)).1
    targets := fun r hr => (names_of_relationIssues (relationIssues_of_isValid h hr)).2
    names := (nodup_of_duplicateProperties hproperties).1
    inverses := (nodup_of_duplicateInverses hinverses).1 }

/-! ## What a plan declares -/

/-- The names of the properties of a plan's own class. -/
def ownNames (p : Plan) : List Text :=
  p.fields.map (·.name) ++ p.relations.map (·.propertyOrSuggested)

/-- What a run declares for a plan, as classes and properties: the plan's own properties, and the
inverse sides of its relations. -/
def declarations (p : Plan) : List (Text × Text) :=
  (ownNames p).map (p.name, ·) ++ inverses p p.relations

theorem mem_inverses {key : Text × Text} {rs : List Relation} : key ∈ inverses p rs ↔
    ∃ r ∈ rs, r.wantsInverse = true ∧ (r.targetName, otherOrSuggested p r) = key := by
  simp only [inverses, List.mem_map, List.mem_filter, and_assoc]

/-- **When a valid plan declares nothing twice**: just if no inverse side on the plan's own class
has the name of one of the plan's own properties.  That case is looked for only where the two are
sides of one relation. -/
theorem nodup_declarations_iff {known : Option (List Text)}
    (h : (validatePlan p known).isValid = true) : (declarations p).Nodup ↔
      ∀ r ∈ p.relations, r.wantsInverse = true → r.targetName = p.name →
        otherOrSuggested p r ∉ ownNames p := by
  have hvalid := validPlan_of_isValid h
  have hown : ((ownNames p).map fun name => (p.name, name)).Nodup :=
    hvalid.names.map fun _ _ he => (Prod.mk.inj he).2
  rw [declarations, List.nodup_append]
  constructor
  · rintro ⟨-, -, hdisjoint⟩ r hr hwants htarget hmem
    refine hdisjoint (p.name, otherOrSuggested p r) (List.mem_map_of_mem hmem) _
      (mem_inverses.mpr ⟨r, hr, hwants, rfl⟩) ?_
    rw [htarget]
  · refine fun hall => ⟨hown, hvalid.inverses, ?_⟩
    rintro _ hmem _ hinverse rfl
    obtain ⟨name, hname, hkey⟩ := List.mem_map.mp hmem
    obtain ⟨r, hr, hwants, hr'⟩ := mem_inverses.mp hinverse
    obtain ⟨htarget, hother⟩ := Prod.mk.inj (hkey.trans hr'.symm)
    exact hall r hr hwants htarget.symm (hother ▸ hname)

/-- Children of a category are a field and the other side of its parent. -/
example :
    let children : Field := { name := "children", type := .string }
    let parent : Relation := {
      property := some "parent"
      kind := .manyToOne
      target := "Category"
      otherProperty := some "children"
      wantsInverse := true }
    let plan : Plan := { name := "Category", fields := [children], relations := [parent] }
    (validatePlan plan none).isValid = true ∧ ¬(declarations plan).Nodup := by
  decide

end EntityScaffold.Validation
