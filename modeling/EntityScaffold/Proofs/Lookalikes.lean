import Mathlib.Data.List.Forall2
import EntityScaffold.Proofs.Cli.Settings
import EntityScaffold.Proofs.Unhashable

/-!
# Data that are read alike

Plan data are read a few levels deep, and a map that holds plans is none itself: its keys are unknown
wherever another map is expected.  So two values that look the same so many levels deep are read
alike, even if maps with plans among their parts have other data of a configuration.

* `Checked.Alike` — two checks come to the same value, if any, and to the same failed look-up.
* `Schema.Similar` — two values look the same so many levels deep, but for the configuration of maps
  with plans.
* `alike_checkField`, `alike_checkRelation`, `alike_checkPlan` — what is similar is read alike.
* `PlanData.Alike`, `PlanData.alike_read` — so are the data of plan files.
-/

set_option autoImplicit false

namespace EntityScaffold

open Text

/-! ## Checks that come to the same -/

namespace Schema.Checked

variable {α β : Type}

/-- Two checks come to the same value, if they come to one, and the same look-up has failed in them, if
one has. -/
structure Alike (r r' : Checked α) : Prop where
  value : ∀ a, r = pure a ↔ r' = pure a
  unhashable : r.unhashable? = r'.unhashable?

theorem Alike.refl (r : Checked α) : Alike r r := ⟨fun _ => .rfl, rfl⟩

/-- Two checks that come to no value, where no look-up has failed. -/
theorem Alike.of_faults {r r' : Checked α} (h : ∀ a, r ≠ pure a) (h' : ∀ a, r' ≠ pure a)
    (hr : r.unhashable? = none) (hr' : r'.unhashable? = none) : Alike r r' :=
  ⟨fun a => ⟨fun e => absurd e (h a), fun e => absurd e (h' a)⟩, hr.trans hr'.symm⟩

theorem Alike.map {r r' : Checked α} (f : α → β) (h : Alike r r') : Alike (f <$> r) (f <$> r') where
  value b := by simp only [map_eq_pure, h.value]
  unhashable := by rw [unhashable?_map, unhashable?_map, h.unhashable]

theorem Alike.seq {f f' : Checked (α → β)} {r r' : Checked α} (hf : Alike f f') (hr : Alike r r') :
    Alike (f <*> r) (f' <*> r') where
  value b := by simp only [seq_eq_pure, hf.value, hr.value]
  unhashable := by rw [unhashable?_seq, unhashable?_seq, hf.unhashable, hr.unhashable]

theorem Alike.seqLeft {r r' : Checked α} {u u' : Checked β} (hr : Alike r r') (hu : Alike u u') :
    Alike (r <* u) (r' <* u') where
  value a := by simp only [seqLeft_eq_pure, hr.value, hu.value]
  unhashable := by rw [unhashable?_seqLeft, unhashable?_seqLeft, hr.unhashable, hu.unhashable]

theorem under_eq_pure {r : Checked α} {k : Key} {a : α} : r.under k = pure a ↔ r = pure a := by
  cases r with
  | ok b => exact .rfl
  | error faults => exact ⟨fun h => (by cases h), fun h => (by cases h)⟩

theorem Alike.under {r r' : Checked α} (k : Key) (h : Alike r r') : Alike (r.under k) (r'.under k) where
  value a := by rw [under_eq_pure, under_eq_pure, h.value]
  unhashable := by rw [unhashable?_under, unhashable?_under, h.unhashable]

theorem Alike.all {γ : Type} {check : γ → Checked α} {vs vs' : List γ}
    (h : List.Forall₂ (fun v v' => Alike (check v) (check v')) vs vs') (i : Nat) :
    Alike (all check i vs) (all check i vs') := by
  induction h generalizing i with
  | nil => exact .refl _
  | cons hv _ ih => exact ((hv.under (.index i)).map List.cons).seq (ih (i + 1))

end Schema.Checked

namespace Schema

/-! ## Values that look the same -/

/-- Whether plans stand among the entries. -/
def HoldsPlans (es : Entries Value) : Prop :=
  (Value.find? es "entities").isSome = true ∨ (Value.find? es "entity").isSome = true

/-- Two maps whose values are related, but for their configurations.  They have the same keys, unless
both hold plans. -/
structure SimilarEntries (R : Value → Value → Prop) (es es' : Entries Value) : Prop where
  values : ∀ name : Text, name ≠ "config" → Option.Rel R (Value.find? es name) (Value.find? es' name)
  keys : es.map (·.1) = es'.map (·.1) ∨ HoldsPlans es ∧ HoldsPlans es'

/-- Two values look the same so many levels deep, but for the configurations of maps with plans. -/
def Similar : Nat → Value → Value → Prop
  | 0, _, _ => True
  | _ + 1, .atom a, .atom a' => a = a'
  | k + 1, .list vs, .list vs' => List.Forall₂ (Similar k) vs vs'
  | _ + 1, .set members, .set members' => members = members'
  | k + 1, .map es, .map es' => SimilarEntries (Similar k) es es'
  | _ + 1, _, _ => False

namespace Similar

variable {k : Nat} {v v' : Value}

/-- What values are that look the same one level deep. -/
theorem cases_ (h : Similar (k + 1) v v') : (∃ a, v = .atom a ∧ v' = .atom a) ∨
    (∃ vs vs', v = .list vs ∧ v' = .list vs' ∧ List.Forall₂ (Similar k) vs vs') ∨
    (∃ members, v = .set members ∧ v' = .set members) ∨
    ∃ es es', v = .map es ∧ v' = .map es' ∧ SimilarEntries (Similar k) es es' := by
  cases v <;> cases v' <;> first
    | exact False.elim h
    | skip
  · obtain rfl := h
    exact .inl ⟨_, rfl, rfl⟩
  · exact .inr (.inl ⟨_, _, rfl, rfl, h⟩)
  · obtain rfl := h
    exact .inr (.inr (.inl ⟨_, rfl, rfl⟩))
  · exact .inr (.inr (.inr ⟨_, _, rfl, rfl, h⟩))

/-- Values that look the same are one atom, or none is an atom. -/
theorem atom_or (h : Similar (k + 1) v v') :
    (∃ a, v = .atom a ∧ v' = .atom a) ∨ (∀ a, v ≠ .atom a) ∧ ∀ a, v' ≠ .atom a := by
  rcases h.cases_ with h | ⟨_, _, rfl, rfl, -⟩ | ⟨_, rfl, rfl⟩ | ⟨_, _, rfl, rfl, -⟩
  · exact .inl h
  · exact .inr ⟨fun _ h => (by cases h), fun _ h => (by cases h)⟩
  · exact .inr ⟨fun _ h => (by cases h), fun _ h => (by cases h)⟩
  · exact .inr ⟨fun _ h => (by cases h), fun _ h => (by cases h)⟩

end Similar

open Checked

variable {α : Type} {k : Nat} {v v' : Value} {es es' : Entries Value}

/-! ## Atoms -/

/-- Only atoms are accepted, and no look-up fails. -/
structure ReadsAtoms (check : Value → Checked α) : Prop where
  atom : ∀ v a, check v = pure a → ∃ x, v = .atom x
  faults : ∀ v, FaultsIn FaultKind.IsHashable (check v)

theorem ReadsAtoms.alike {check : Value → Checked α} (hcheck : ReadsAtoms check)
    (h : Similar (k + 1) v v') : Alike (check v) (check v') := by
  have hother : ∀ w : Value, (∀ x, w ≠ .atom x) → ∀ a, check w ≠ pure a := by
    intro w hw a ha
    obtain ⟨x, hx⟩ := hcheck.atom w a ha
    exact hw x hx
  rcases h.atom_or with ⟨a, rfl, rfl⟩ | ⟨hv, hv'⟩
  · exact .refl _
  · exact .of_faults (hother v hv) (hother v' hv') (hcheck.faults v).unhashable?
      (hcheck.faults v').unhashable?

theorem readsAtoms_checkText : ReadsAtoms checkText where
  atom v a h := by
    cases v with
    | atom x => exact ⟨x, rfl⟩
    | _ => cases h
  faults := faultsIn_checkText

theorem readsAtoms_checkFilledText : ReadsAtoms checkFilledText where
  atom v a h := by
    cases v with
    | atom x => exact ⟨x, rfl⟩
    | _ => cases h
  faults := faultsIn_checkFilledText

theorem readsAtoms_checkBool : ReadsAtoms checkBool where
  atom v a h := by
    cases v with
    | atom x => exact ⟨x, rfl⟩
    | _ => cases h
  faults := faultsIn_checkBool

theorem readsAtoms_checkKind : ReadsAtoms checkKind where
  atom v a h := by
    cases v with
    | atom x => exact ⟨x, rfl⟩
    | _ => cases h
  faults := faultsIn_checkKind

/-- The type of a field is an atom that is read, or the kinds of value are the same. -/
theorem alike_checkFieldType (h : Similar (k + 1) v v') :
    Alike (checkFieldType v) (checkFieldType v') := by
  rcases h.cases_ with ⟨a, rfl, rfl⟩ | ⟨_, _, rfl, rfl, -⟩ | ⟨_, rfl, rfl⟩ | ⟨_, _, rfl, rfl, -⟩
  all_goals exact .refl _

theorem alike_checkOptional {check : Value → Checked α}
    (hcheck : Alike (check v) (check v')) (h : Similar (k + 1) v v') :
    Alike (checkOptional check v) (checkOptional check v') := by
  rcases h.atom_or with ⟨a, rfl, rfl⟩ | ⟨hv, hv'⟩
  · exact .refl _
  · unfold checkOptional
    split
    · exact absurd rfl (hv _)
    split
    · exact absurd rfl (hv' _)
    · exact hcheck.map _

/-! ## Maps -/

/-- The names under which a plan file holds its data. -/
def planFileKeys : List Text := ["config", "entities", "entity"]

/-- Neither spelling of a slot is one of these names. -/
def Slot.IsOwn (s : Slot) : Prop := s.key ∉ planFileKeys ∧ s.other ∉ planFileKeys

instance (s : Slot) : Decidable s.IsOwn := inferInstanceAs (Decidable (_ ∧ _))

theorem eq_text_of_same {a : Atom} {t : Text} (h : a.same (.text t) = true) : a = .text t := by
  have hcanonical : a.canonical = .text t := of_decide_eq_true h
  cases a with
  | float x =>
    rw [Atom.canonical] at hcanonical
    cases hx : x.toInt? <;> rw [hx] at hcanonical <;> cases hcanonical
  | moment m =>
    rw [Atom.canonical] at hcanonical
    cases hm : m.instant? <;> rw [hm] at hcanonical <;> cases hcanonical
  | text t' => exact hcanonical
  | _ => cases hcanonical

/-- A name that is found is a key. -/
theorem mem_keys_of_find? {name : Text} (h : (Value.find? es name).isSome = true) :
    ∃ e ∈ es, e.1 = .text name := by
  rw [Value.find?, Entries.find?, Option.isSome_map] at h
  obtain ⟨e, he⟩ := Option.isSome_iff_exists.mp h
  have hsame : e.1.same (.text name) = true :=
    List.find?_some (p := fun e : Atom × Value => e.1.same (.text name)) he
  exact ⟨e, List.mem_of_find?_eq_some he, eq_text_of_same hsame⟩

/-- **Data of a plan file are no map of another kind**: its keys are unknown there. -/
theorem HoldsPlans.noOthers (h : HoldsPlans es) {slots : List Slot} (hslots : ∀ s ∈ slots, s.IsOwn)
    (u : Unit) : noOthers es slots ≠ pure u := by
  obtain ⟨name, hname, hfound⟩ : ∃ name ∈ planFileKeys, (Value.find? es name).isSome = true := by
    rcases h with h | h
    · exact ⟨_, by decide, h⟩
    · exact ⟨_, by decide, h⟩
  obtain ⟨e, he, hkey⟩ := mem_keys_of_find? hfound
  have hunknown : (slots.map (·.used es)).contains name = false := by
    rw [List.contains_eq_mem, decide_eq_false_iff_not, List.mem_map]
    rintro ⟨s, hs, rfl⟩
    unfold Slot.used at hname
    split at hname
    · exact (hslots s hs).1 hname
    · exact (hslots s hs).2 hname
  have hmem : (⟨.unknownKey, [.name name]⟩ : Fault) ∈
      es.filterMap fun e => keyFault? (slots.map (·.used es)) e.1 := by
    refine List.mem_filterMap.mpr ⟨e, he, ?_⟩
    rw [hkey, keyFault?, hunknown]
    rfl
  unfold Schema.noOthers
  generalize es.filterMap (fun e => keyFault? (slots.map (·.used es)) e.1) = faults at hmem ⊢
  cases faults with
  | nil => cases hmem
  | cons f faults =>
    intro hpure
    cases hpure

section

variable {R : Value → Value → Prop} {s : Slot}

theorem isSome_eq_of_rel {o o' : Option Value} (h : Option.Rel R o o') : o.isSome = o'.isSome := by
  cases h <;> rfl

/-- Related values are both missing or both there. -/
theorem none_or_of_rel {o o' : Option Value} (h : Option.Rel R o o') :
    (o = none ∧ o' = none) ∨ ∃ v v', o = some v ∧ o' = some v' ∧ R v v' := by
  cases h with
  | none => exact .inl ⟨rfl, rfl⟩
  | some hv => exact .inr ⟨_, _, rfl, rfl, hv⟩

theorem SimilarEntries.used_eq (h : SimilarEntries R es es') (hs : s.IsOwn) :
    s.used es = s.used es' := by
  have hkey : s.key ≠ "config" := fun heq => hs.1 (by rw [heq]; decide)
  rw [Slot.used, Slot.used, isSome_eq_of_rel (h.values s.key hkey)]

theorem SimilarEntries.slot (h : SimilarEntries R es es') (hs : s.IsOwn) :
    Option.Rel R (s.find? es) (s.find? es') := by
  have hkey : s.key ≠ "config" := fun heq => hs.1 (by rw [heq]; decide)
  have hother : s.other ≠ "config" := fun heq => hs.2 (by rw [heq]; decide)
  rw [Slot.find?, Slot.find?, ← h.used_eq hs]
  refine h.values _ ?_
  unfold Slot.used
  split
  · exact hkey
  · exact hother

theorem SimilarEntries.required (h : SimilarEntries R es es') (hs : s.IsOwn)
    {check : Value → Checked α} (hcheck : ∀ v v', R v v' → Alike (check v) (check v')) :
    Alike (required es s check) (required es' s check) := by
  unfold Schema.required
  refine .under _ ?_
  rcases none_or_of_rel (h.slot hs) with ⟨hnone, hnone'⟩ | ⟨v, v', hsome, hsome', hv⟩
  · rw [hnone, hnone']
    exact .refl _
  · rw [hsome, hsome']
    exact hcheck v v' hv

theorem SimilarEntries.optional (h : SimilarEntries R es es') (hs : s.IsOwn) {default : α}
    {check : Value → Checked α} (hcheck : ∀ v v', R v v' → Alike (check v) (check v')) :
    Alike (optional es s default check) (optional es' s default check) := by
  unfold Schema.optional
  rcases none_or_of_rel (h.slot hs) with ⟨hnone, hnone'⟩ | ⟨v, v', hsome, hsome', hv⟩
  · rw [hnone, hnone']
    exact .refl _
  · rw [hsome, hsome']
    exact (hcheck v v' hv).under _

theorem SimilarEntries.noOthers (h : SimilarEntries R es es') {slots : List Slot}
    (hslots : ∀ s ∈ slots, s.IsOwn) : Alike (noOthers es slots) (noOthers es' slots) := by
  rcases h.keys with hkeys | ⟨hplans, hplans'⟩
  · have hused : slots.map (·.used es) = slots.map (·.used es') :=
      List.map_congr_left fun s hs => h.used_eq (hslots s hs)
    have hfaults : ∀ (known : List Text) (es : Entries Value),
        es.filterMap (fun e => keyFault? known e.1) = (es.map (·.1)).filterMap (keyFault? known) :=
      fun known es => by
        rw [List.filterMap_map]
        rfl
    unfold Schema.noOthers
    rw [hfaults, hfaults, hused, hkeys]
    exact .refl _
  · exact .of_faults (hplans.noOthers hslots) (hplans'.noOthers hslots)
      (unhashable?_noOthers es slots) (unhashable?_noOthers es' slots)

end

theorem alike_checkMap {model : Text} {check : Entries Value → Checked α} (h : Similar (k + 1) v v')
    (hcheck : ∀ es es', SimilarEntries (Similar k) es es' → Alike (check es) (check es')) :
    Alike (checkMap model check v) (checkMap model check v') := by
  rcases h.cases_ with ⟨a, rfl, rfl⟩ | ⟨_, _, rfl, rfl, -⟩ | ⟨_, rfl, rfl⟩ | ⟨_, _, rfl, rfl, hes⟩
  · exact .refl _
  · exact .refl _
  · exact .refl _
  · exact hcheck _ _ hes

theorem alike_checkList {check : Value → Checked α} (h : Similar (k + 1) v v')
    (hcheck : ∀ v v', Similar k v v' → Alike (check v) (check v')) :
    Alike (checkList check v) (checkList check v') := by
  rcases h.cases_ with ⟨a, rfl, rfl⟩ | ⟨_, _, rfl, rfl, hvs⟩ | ⟨_, rfl, rfl⟩ | ⟨_, _, rfl, rfl, -⟩
  · exact .refl _
  · exact .all (hvs.imp hcheck) 0
  · exact .refl _
  · exact .refl _

/-! ## Fields, relations and plans -/

theorem alike_checkJoinTable (h : Similar (k + 2) v v') :
    Alike (checkJoinTable v) (checkJoinTable v') := by
  refine alike_checkMap h fun es es' hes => ?_
  have htext : ∀ v v', Similar (k + 1) v v' → Alike (checkFilledText v) (checkFilledText v') :=
    fun v v' => readsAtoms_checkFilledText.alike
  refine .seqLeft (.seq (.seq (.map _ ?_) ?_) ?_) (hes.noOthers (by decide))
  · exact hes.required (by decide) htext
  · exact hes.required (by decide) htext
  · exact hes.required (by decide) htext

theorem alike_checkField (h : Similar (k + 2) v v') : Alike (checkField v) (checkField v') := by
  refine alike_checkMap h fun es es' hes => ?_
  refine .seqLeft (.seq (.seq (.map _ ?_) ?_) ?_) (hes.noOthers (by decide))
  · exact hes.required (by decide) fun v v' => readsAtoms_checkFilledText.alike
  · exact hes.required (by decide) fun v v' => alike_checkFieldType
  · exact hes.optional (by decide) fun v v' => readsAtoms_checkBool.alike

theorem same_text_eq_false {a b : Text} (h : a ≠ b) : (Atom.text a).same (.text b) = false :=
  decide_eq_false fun heq => h (Atom.text.inj heq)

theorem HoldsPlans.put (h : HoldsPlans es) {name : Text} (hname : name ∉ planFileKeys) (v : Value) :
    HoldsPlans (es.put (.text name) v) := by
  have hkept : ∀ key ∈ planFileKeys, Value.find? (es.put (.text name) v) key = Value.find? es key :=
    fun key hkey => Entries.find?_put_of_not_same v
      (same_text_eq_false fun heq => hname (heq ▸ hkey))
  rcases h with h | h
  · refine .inl ?_
    rw [hkept _ (by decide)]
    exact h
  · refine .inr ?_
    rw [hkept _ (by decide)]
    exact h

theorem keys_put {key : Atom} {w w' : Value} (h : es.map (·.1) = es'.map (·.1)) :
    (es.put key w).map (·.1) = (es'.put key w').map (·.1) := by
  induction es generalizing es' with
  | nil =>
    cases es' with
    | nil => rfl
    | cons e es' => cases h
  | cons e es ih =>
    cases es' with
    | nil => cases h
    | cons e' es' =>
      obtain ⟨hkey, hrest⟩ := List.cons.inj h
      rw [Entries.put, Entries.put, show e.1 = e'.1 from hkey]
      split
      · rw [List.map_cons, List.map_cons, hrest]
      · rw [List.map_cons, List.map_cons, ih hrest]

/-- A value of its own under a name keeps maps similar. -/
theorem SimilarEntries.put {R : Value → Value → Prop} (h : SimilarEntries R es es') {name : Text}
    (hname : name ∉ planFileKeys) (hv : R v v) :
    SimilarEntries R (es.put (.text name) v) (es'.put (.text name) v) where
  values key hkey := by
    by_cases heq : name = key
    · subst heq
      rw [Value.find?, Value.find?, Entries.find?_put_self, Entries.find?_put_self]
      exact .some hv
    · have hother := same_text_eq_false heq
      rw [Value.find?, Value.find?, Entries.find?_put_of_not_same v hother,
        Entries.find?_put_of_not_same v hother]
      exact h.values key hkey
  keys := by
    rcases h.keys with hkeys | ⟨hplans, hplans'⟩
    · exact .inl (keys_put hkeys)
    · exact .inr ⟨hplans.put hname v, hplans'.put hname v⟩

/-- Whether a relation is that to a collection depends on its kind, an atom. -/
theorem SimilarEntries.relation (h : SimilarEntries (Similar (k + 1)) es es') :
    SimilarEntries (Similar (k + 1)) (relationEntries es) (relationEntries es') := by
  unfold relationEntries
  rcases none_or_of_rel (h.values "kind" (by decide)) with
    ⟨hnone, hnone'⟩ | ⟨v, v', hsome, hsome', hv⟩
  · rw [hnone, hnone']
    exact h
  · rw [hsome, hsome']
    rcases hv.atom_or with ⟨a, rfl, rfl⟩ | ⟨hv, hv'⟩
    · split
      · split
        · exact h.put (by decide) rfl
        · exact h
      · exact h
    · split
      · rename_i heq
        exact absurd (Option.some.inj heq) (hv _)
      split
      · rename_i heq
        exact absurd (Option.some.inj heq) (hv' _)
      · exact h

theorem alike_checkRelation (h : Similar (k + 3) v v') :
    Alike (checkRelation v) (checkRelation v') := by
  refine alike_checkMap h fun es es' hes => ?_
  have hes := hes.relation
  have htext : ∀ v v', Similar (k + 2) v v' →
      Alike (checkOptional checkText v) (checkOptional checkText v') := fun v v' hv =>
    alike_checkOptional (readsAtoms_checkText.alike hv) hv
  have hbool : ∀ v v', Similar (k + 2) v v' → Alike (checkBool v) (checkBool v') :=
    fun v v' => readsAtoms_checkBool.alike
  refine .seqLeft ?_ (hes.noOthers (by decide))
  refine .seq (.seq (.seq (.seq (.seq (.seq (.seq (.seq (.map _ ?_) ?_) ?_) ?_) ?_) ?_) ?_) ?_) ?_
  · exact hes.optional (by decide) htext
  · exact hes.required (by decide) fun v v' => readsAtoms_checkKind.alike
  · exact hes.required (by decide) fun v v' => readsAtoms_checkFilledText.alike
  · exact hes.optional (by decide) fun v v' hv => alike_checkOptional (hbool v v' hv) hv
  · exact hes.optional (by decide) hbool
  · exact hes.optional (by decide) htext
  · exact hes.optional (by decide) hbool
  · exact hes.optional (by decide) fun v v' hv => alike_checkOptional (alike_checkJoinTable hv) hv
  · exact hes.optional (by decide) hbool

/-- **Plans that look the same five levels deep are read alike.** -/
theorem alike_checkPlan (h : Similar (k + 5) v v') : Alike (checkPlan v) (checkPlan v') := by
  refine alike_checkMap h fun es es' hes => ?_
  refine .seqLeft (.seq (.seq (.map _ ?_) ?_) ?_) (hes.noOthers (by decide))
  · exact hes.required (by decide) fun v v' => readsAtoms_checkFilledText.alike
  · exact hes.optional (by decide) fun v v' hv =>
      alike_checkList hv fun v v' => alike_checkField
  · exact hes.optional (by decide) fun v v' hv =>
      alike_checkList hv fun v v' => alike_checkRelation

end Schema

/-! ## Plan files -/

namespace PlanData

open Schema

variable {α β : Type}

/-- Two readings come to the same, if to anything, and fail with an error of the plan file together. -/
structure Alike (r r' : Except Failure α) : Prop where
  value : ∀ a, r = .ok a ↔ r' = .ok a
  plan : (∃ x, r = .error (.plan x)) ↔ ∃ x, r' = .error (.plan x)

theorem Alike.refl (r : Except Failure α) : Alike r r := ⟨fun _ => .rfl, .rfl⟩

theorem Alike.bind {r r' : Except Failure α} {f f' : α → Except Failure β} (h : Alike r r')
    (hf : ∀ a, r = .ok a → Alike (f a) (f' a)) : Alike (r >>= f) (r' >>= f') := by
  cases r with
  | ok a =>
    rw [(h.value a).mp rfl]
    exact hf a rfl
  | error e =>
    cases r' with
    | ok a => cases (h.value a).mpr rfl
    | error e' =>
      refine ⟨fun b => ⟨fun h => (by cases h), fun h => (by cases h)⟩, ?_⟩
      have hplan := h.plan
      simpa [Bind.bind, Except.bind] using hplan

/-- Data are rejected if they come to no value and no look-up has failed. -/
theorem settle_inPlan_eq_plan_iff {model : Text} {r : Checked α} {wrap : Rejection → PlanError} :
    (∃ x, (settle model r).mapError (inPlan wrap) = .error (.plan x)) ↔
      (∀ a, r ≠ pure a) ∧ r.unhashable? = none := by
  cases r with
  | ok a =>
    constructor
    · rintro ⟨x, h⟩
      cases h
    · intro h
      exact absurd rfl (h.1 a)
  | error faults =>
    rw [settle, failureOf_eq, Checked.unhashable?]
    cases faults.findSome? fun f => f.kind.unhashable? with
    | none =>
      constructor
      · rintro -
        refine ⟨fun a h => ?_, rfl⟩
        cases h
      · rintro -
        exact ⟨_, rfl⟩
    | some typeName =>
      constructor
      · rintro ⟨x, h⟩
        cases h
      · rintro ⟨-, h⟩
        cases h

theorem Alike.of_checked {model : Text} {wrap : Rejection → PlanError} {r r' : Checked α}
    (h : r.Alike r') : Alike ((settle model r).mapError (inPlan wrap))
      ((settle model r').mapError (inPlan wrap)) where
  value a := by
    rw [settle_inPlan_eq_ok_iff, settle_inPlan_eq_ok_iff]
    exact h.value a
  plan := by
    rw [settle_inPlan_eq_plan_iff, settle_inPlan_eq_plan_iff, h.unhashable]
    simp only [ne_eq, h.value]

theorem alike_plans {vs vs' : List Value}
    (h : List.Forall₂ (fun v v' => (checkPlan v).Alike (checkPlan v')) vs vs') :
    Alike (plans vs) (plans vs') := by
  unfold plans
  induction h with
  | nil => exact .refl _
  | cons hv _ ih =>
    rw [List.mapM_cons, List.mapM_cons]
    exact (Alike.of_checked hv).bind fun p _ => ih.bind fun ps _ => .refl _

/-- Where the plans stand, and that they look the same. -/
theorem alike_entities {k : Nat} {es es' : Entries Value}
    (hlist : Option.Rel (Similar (k + 6)) (Value.find? es "entities") (Value.find? es' "entities"))
    (hone : Option.Rel (Similar (k + 6)) (Value.find? es "entity") (Value.find? es' "entity")) :
    (∃ x, entities es = .error x ∧ entities es' = .error x) ∨
      ∃ vs vs', entities es = .ok vs ∧ entities es' = .ok vs' ∧
        List.Forall₂ (fun v v' => (checkPlan v).Alike (checkPlan v')) vs vs' := by
  unfold entities
  rcases none_or_of_rel hlist with ⟨hnone, hnone'⟩ | ⟨v, v', hsome, hsome', hv⟩
  · rw [hnone, hnone']
    rcases none_or_of_rel hone with ⟨hnone, hnone'⟩ | ⟨v, v', hsome, hsome', hv⟩
    · rw [hnone, hnone']
      exact .inl ⟨_, rfl, rfl⟩
    · rw [hsome, hsome']
      exact .inr ⟨_, _, rfl, rfl, .cons (alike_checkPlan hv) .nil⟩
  · rw [hsome, hsome']
    rcases hv.cases_ with ⟨a, rfl, rfl⟩ | ⟨vs, vs', rfl, rfl, hvs⟩ | ⟨_, rfl, rfl⟩ |
      ⟨_, _, rfl, rfl, -⟩
    · exact .inl ⟨_, rfl, rfl⟩
    · exact .inr ⟨vs, vs', rfl, rfl, hvs.imp fun v v' => alike_checkPlan⟩
    · exact .inl ⟨_, rfl, rfl⟩
    · exact .inl ⟨_, rfl, rfl⟩

/-- **Plan data with plans that look the same, and with the same configuration, are read alike.** -/
theorem alike_read {k : Nat} {es es' : Entries Value}
    (hlist : Option.Rel (Similar (k + 6)) (Value.find? es "entities") (Value.find? es' "entities"))
    (hone : Option.Rel (Similar (k + 6)) (Value.find? es "entity") (Value.find? es' "entity"))
    (hconfig : (config? es).getD (.map []) = (config? es').getD (.map [])) :
    Alike (read es) (read es') := by
  rw [read, read, hconfig]
  rcases alike_entities hlist hone with ⟨x, hx, hx'⟩ | ⟨vs, vs', hvs, hvs', hplans⟩
  · rw [hx, hx']
    exact .refl _
  · rw [hvs, hvs']
    exact (alike_plans hplans).bind fun ps _ => .refl _

end PlanData

end EntityScaffold
