import EntityScaffold.Proofs.Cli.Escapes

/-!
# Plan data that no error of a plan file tells of

The name of a field's type is looked up as it stands.  Where a list, set or map stands in its place
the look-up itself fails, and that failure is none of the data: it goes past the rejection of the
plan, with which everything else that is wrong about plan data ends.

* `Checked.unhashable?` — the first failed look-up among the faults of a check; one lemma for each way
  of putting checks together.
* `unhashableType?`, `unhashableTypeOf?` — a field, and a plan, with such a type.
* `unhashable?_checkField`, `unhashable?_checkPlan` — these are all the look-ups that fail.
* `PlanData.read_fails_otherwise_iff` — so only for such a plan does reading plan data fail with
  anything but an error of the plan file.
-/

set_option autoImplicit false

namespace EntityScaffold

open Text

/-- What fails for a list fails for its first element that is not accepted. -/
theorem mapM_eq_error_iff {ε α β : Type} {f : α → Except ε β} {xs : List α} {e : ε} :
    xs.mapM f = .error e ↔ ∃ before x after, xs = before ++ x :: after ∧
      (∀ y ∈ before, ∃ b, f y = .ok b) ∧ f x = .error e := by
  constructor
  · intro h
    induction xs with
    | nil => cases h
    | cons x xs ih =>
      rw [List.mapM_cons] at h
      rcases of_bind_error h with hx | ⟨b, hx, h⟩
      · exact ⟨[], x, xs, rfl, fun _ hy => absurd hy List.not_mem_nil, hx⟩
      rcases of_bind_error h with hxs | ⟨bs, -, h⟩
      · obtain ⟨before, y, after, rfl, hbefore, hy⟩ := ih hxs
        refine ⟨x :: before, y, after, rfl, fun z hz => ?_, hy⟩
        rcases List.mem_cons.mp hz with rfl | hz
        · exact ⟨b, hx⟩
        · exact hbefore z hz
      · cases h
  · rintro ⟨before, x, after, rfl, hbefore, hx⟩
    induction before with
    | nil =>
      rw [List.nil_append, List.mapM_cons, hx]
      rfl
    | cons y before ih =>
      obtain ⟨b, hy⟩ := hbefore y List.mem_cons_self
      rw [List.cons_append, List.mapM_cons, hy,
        ih fun z hz => hbefore z (List.mem_cons_of_mem y hz)]
      rfl

/-- The kind of a value by which no name can be looked up. -/
def Value.unhashable? : Value → Option Text
  | .atom _ => none
  | v => some v.typeName

namespace Schema

/-! ## Failed look-ups among faults -/

/-- The kind of value by which a look-up has failed, if the fault is of that kind. -/
def FaultKind.unhashable? : FaultKind → Option Text
  | .unhashable typeName => some typeName
  | _ => none

theorem FaultKind.IsHashable.unhashable? {k : FaultKind} (h : k.IsHashable) :
    k.unhashable? = none := by
  unfold FaultKind.unhashable?
  split
  · exact absurd rfl (h _)
  · rfl

theorem failureOf_eq (model : Text) (faults : List Fault) :
    failureOf model faults =
      (faults.findSome? fun f => f.kind.unhashable?).elim (.rejected ⟨model, faults⟩)
        .unhashable := by
  unfold failureOf
  split
  · rename_i typeName h
    have hsome : (faults.findSome? fun f => f.kind.unhashable?) = some typeName := h
    rw [hsome]
    rfl
  · rename_i h
    have hnone : (faults.findSome? fun f => f.kind.unhashable?) = none := h
    rw [hnone]
    rfl

namespace Checked

variable {α β : Type}

/-- The first failed look-up among the faults. -/
def unhashable? : Checked α → Option Text
  | .ok _ => none
  | .error faults => faults.findSome? fun f => f.kind.unhashable?

theorem unhashable?_fail (kind : FaultKind) :
    (fail kind : Checked α).unhashable? = kind.unhashable? := by
  show [(⟨kind, []⟩ : Fault)].findSome? (fun f => f.kind.unhashable?) = _
  rw [List.findSome?_cons]
  cases kind.unhashable? <;> rfl

theorem unhashable?_map (f : α → β) (r : Checked α) : (f <$> r).unhashable? = r.unhashable? := by
  cases r <;> rfl

theorem unhashable?_seq (f : Checked (α → β)) (r : Checked α) :
    (f <*> r).unhashable? = f.unhashable?.or r.unhashable? := by
  cases f with
  | ok g => cases r <;> rfl
  | error faults =>
    cases r with
    | ok a => exact Option.or_none.symm
    | error faults' => exact List.findSome?_append

theorem unhashable?_seqLeft (r : Checked α) (u : Checked β) :
    (r <* u).unhashable? = r.unhashable?.or u.unhashable? := by
  have h : (r <* u) = (Function.const β <$> r) <*> u := rfl
  rw [h, unhashable?_seq, unhashable?_map]

/-- Where a fault stands does not matter. -/
theorem unhashable?_under (k : Key) (r : Checked α) : (r.under k).unhashable? = r.unhashable? := by
  cases r with
  | ok a => rfl
  | error faults => exact List.findSome?_map

theorem unhashable?_all {γ : Type} (check : γ → Checked α) (i : Nat) (vs : List γ) :
    (all check i vs).unhashable? = vs.findSome? fun v => (check v).unhashable? := by
  induction vs generalizing i with
  | nil => rfl
  | cons v vs ih =>
    have h : all check i (v :: vs) =
        (List.cons <$> (check v).under (.index i)) <*> all check (i + 1) vs := rfl
    rw [h, unhashable?_seq, unhashable?_map, unhashable?_under, ih, List.findSome?_cons]
    cases (check v).unhashable? <;> rfl

theorem FaultsIn.unhashable? {r : Checked α} (h : FaultsIn FaultKind.IsHashable r) :
    r.unhashable? = none := by
  cases r with
  | ok a => rfl
  | error faults => exact List.findSome?_eq_none_iff.mpr fun f hf => (h f hf).unhashable?

theorem FaultsIn.required {ok : FaultKind → Prop} {es : Entries Value} {s : Slot}
    {check : Value → Checked α} (hmissing : ok .missing) (h : ∀ v, FaultsIn ok (check v)) :
    FaultsIn ok (required es s check) := by
  unfold Schema.required
  refine .under _ ?_
  split
  · exact h _
  · exact .fail hmissing

theorem FaultsIn.checkOptional {ok : FaultKind → Prop} {check : Value → Checked α}
    (h : ∀ v, FaultsIn ok (check v)) (v : Value) : FaultsIn ok (checkOptional check v) := by
  unfold Schema.checkOptional
  split
  · exact .pure _
  · exact (h _).map _

theorem unhashable?_required (es : Entries Value) (s : Slot) (check : Value → Checked α) :
    (required es s check).unhashable? = (s.find? es).bind fun v => (check v).unhashable? := by
  rw [required, unhashable?_under]
  cases s.find? es <;> rfl

theorem unhashable?_optional (es : Entries Value) (s : Slot) (default : α)
    (check : Value → Checked α) :
    (optional es s default check).unhashable? =
      (s.find? es).bind fun v => (check v).unhashable? := by
  rw [optional]
  cases s.find? es with
  | none => rfl
  | some v => exact unhashable?_under _ _

theorem unhashable?_noOthers (es : Entries Value) (slots : List Slot) :
    (noOthers es slots).unhashable? = none :=
  (FaultsIn.noOthers (fun _ => nofun) fun _ => nofun).unhashable?

end Checked

open Checked

/-! ## Which look-ups fail -/

theorem faultsIn_checkFilledText (v : Value) : FaultsIn FaultKind.IsHashable (checkFilledText v) := by
  unfold checkFilledText
  split
  · exact .fail fun _ => nofun
  · exact .pure _
  · exact .fail fun _ => nofun
  · exact .fail fun _ => nofun

theorem faultsIn_checkExactKind (v : Value) : FaultsIn FaultKind.IsHashable (checkExactKind v) := by
  unfold checkExactKind
  split
  · split
    · exact .pure _
    · exact .fail fun _ => nofun
  · exact .fail fun _ => nofun

theorem faultsIn_checkKind (v : Value) : FaultsIn FaultKind.IsHashable (checkKind v) := by
  unfold checkKind
  split
  · split
    · exact .pure _
    · exact .fail fun _ => nofun
  · exact faultsIn_checkExactKind _

theorem faultsIn_checkJoinTable (v : Value) : FaultsIn FaultKind.IsHashable (checkJoinTable v) := by
  have hmissing : FaultKind.missing.IsHashable := fun _ => nofun
  unfold checkJoinTable checkMap
  split
  · refine .seqLeft ?_ (.noOthers (fun _ => nofun) fun _ => nofun)
    refine .seq (.seq (.map _ ?_) ?_) ?_ <;> exact .required hmissing faultsIn_checkFilledText
  · exact .fail fun _ => nofun

/-- **No look-up fails in a relation**: its kind is only looked up if it is a text. -/
theorem faultsIn_checkRelation (v : Value) : FaultsIn FaultKind.IsHashable (checkRelation v) := by
  have hmissing : FaultKind.missing.IsHashable := fun _ => nofun
  unfold checkRelation checkMap
  split
  · refine .seqLeft ?_ (.noOthers (fun _ => nofun) fun _ => nofun)
    refine .seq (.seq (.seq (.seq (.seq (.seq (.seq (.seq (.map _ ?_) ?_) ?_) ?_) ?_) ?_) ?_) ?_) ?_
    · exact .optional (.checkOptional faultsIn_checkText)
    · exact .required hmissing faultsIn_checkKind
    · exact .required hmissing faultsIn_checkFilledText
    · exact .optional (.checkOptional faultsIn_checkBool)
    · exact .optional faultsIn_checkBool
    · exact .optional (.checkOptional faultsIn_checkText)
    · exact .optional faultsIn_checkBool
    · exact .optional (.checkOptional faultsIn_checkJoinTable)
    · exact .optional faultsIn_checkBool
  · exact .fail fun _ => nofun

/-- The look-up of a field's type fails for a list, set or map, and for nothing else. -/
theorem unhashable?_checkFieldType (v : Value) :
    (checkFieldType v).unhashable? = v.unhashable? := by
  cases v with
  | atom a =>
    refine FaultsIn.unhashable? ?_
    unfold checkFieldType
    split
    · split
      · exact .pure _
      · exact .fail fun _ => nofun
    · exact .fail fun _ => nofun
    · rename_i hne
      exact absurd rfl (hne a)
  | list vs => rfl
  | set members => rfl
  | map es => rfl

/-- The kind of list, set or map that stands for the type of a field. -/
def unhashableType? : Value → Option Text
  | .map es => (typeSlot.find? es).bind Value.unhashable?
  | _ => none

/-- The same for the first such field of a plan. -/
def unhashableTypeOf? : Value → Option Text
  | .map es =>
    match (slot "fields").find? es with
    | some (.list fields) => fields.findSome? unhashableType?
    | _ => none
  | _ => none

theorem unhashable?_checkField (v : Value) : (checkField v).unhashable? = unhashableType? v := by
  unfold checkField checkMap
  split
  · rename_i es
    have hname : (required es (slot "name") checkFilledText).unhashable? = none :=
      (FaultsIn.required (fun _ => nofun) faultsIn_checkFilledText).unhashable?
    have hnullable : (optional es (slot "nullable") false checkBool).unhashable? = none :=
      (FaultsIn.optional faultsIn_checkBool).unhashable?
    rw [unhashable?_seqLeft, unhashable?_seq, unhashable?_seq, unhashable?_map, hname, hnullable,
      unhashable?_noOthers, unhashable?_required, Option.none_or, Option.or_none, Option.or_none]
    simp only [unhashable?_checkFieldType, unhashableType?]
  · rename_i hne
    rw [unhashable?_fail]
    unfold unhashableType?
    split
    · exact absurd rfl (hne _)
    · rfl

/-- A set has only atoms for members, none of which is a field. -/
theorem unhashable?_checkFields (v : Value) :
    (checkList checkField v).unhashable? = match v with
      | .list fields => fields.findSome? unhashableType?
      | _ => none := by
  unfold checkList
  split
  · rw [unhashable?_all]
    simp only [unhashable?_checkField]
  · rw [unhashable?_all, List.findSome?_map]
    refine List.findSome?_eq_none_iff.mpr fun a _ => ?_
    exact unhashable?_checkField (.atom a)
  · rename_i hlist _
    rw [unhashable?_fail]
    split
    · exact absurd rfl (hlist _)
    · rfl

/-- **The look-up that fails in a plan** is that of the first field whose type is a list, set or
map. -/
theorem unhashable?_checkPlan (v : Value) : (checkPlan v).unhashable? = unhashableTypeOf? v := by
  unfold checkPlan checkMap
  split
  · rename_i es
    have hname : (required es (slot "name") checkFilledText).unhashable? = none :=
      (FaultsIn.required (fun _ => nofun) faultsIn_checkFilledText).unhashable?
    have hrelations : ∀ v, (checkList checkRelation v).unhashable? = none := by
      intro v
      unfold checkList
      split
      · rw [unhashable?_all]
        exact List.findSome?_eq_none_iff.mpr fun r _ => (faultsIn_checkRelation r).unhashable?
      · rw [unhashable?_all]
        exact List.findSome?_eq_none_iff.mpr fun r _ => (faultsIn_checkRelation r).unhashable?
      · rfl
    rw [unhashable?_seqLeft, unhashable?_seq, unhashable?_seq, unhashable?_map, hname,
      unhashable?_noOthers, unhashable?_optional, unhashable?_optional, Option.none_or,
      Option.or_none]
    simp only [hrelations, unhashable?_checkFields, unhashableTypeOf?]
    cases (slot "fields").find? es with
    | none => cases (slot "relations").find? es <;> rfl
    | some fields => cases fields <;> cases (slot "relations").find? es <;> simp
  · rename_i hne
    rw [unhashable?_fail]
    unfold unhashableTypeOf?
    split
    · exact absurd rfl (hne _)
    · rfl

/-- What a check comes to has failed otherwise than by a rejection if a look-up has failed. -/
theorem settle_eq_unhashable_iff {α : Type} {model : Text} {r : Checked α} {typeName : Text} :
    settle model r = .error (.unhashable typeName) ↔ r.unhashable? = some typeName := by
  cases r with
  | ok a => constructor <;> intro h <;> cases h
  | error faults =>
    rw [settle, failureOf_eq, Checked.unhashable?]
    cases faults.findSome? fun f => f.kind.unhashable? with
    | none => constructor <;> intro h <;> cases h
    | some typeName' =>
      constructor <;>
        · intro h
          cases h
          rfl

end Schema

namespace PlanData

open Schema

variable {es : Entries Value} {typeName : Text}

theorem mapError_inPlan_eq_unhashable_iff {α : Type} {r : Except Failure α}
    {wrap : Rejection → PlanError} :
    r.mapError (inPlan wrap) = .error (.unhashable typeName) ↔
      r = .error (.unhashable typeName) := by
  constructor
  · intro h
    obtain ⟨e, rfl, he⟩ := of_mapError h
    cases e <;> cases he
    rfl
  · rintro rfl
    rfl

/-- Plans are read as they are accepted. -/
theorem settle_inPlan_eq_ok_iff {α : Type} {model : Text} {r : Checked α}
    {wrap : Rejection → PlanError} {a : α} :
    (settle model r).mapError (inPlan wrap) = .ok a ↔ r = .ok a := by
  cases r with
  | ok b =>
    constructor <;>
      · intro h
        cases h
        rfl
  | error faults => constructor <;> intro h <;> cases h

/-- Reading plans ends with a failed look-up where that is what the first plan that is not accepted
comes to. -/
theorem plans_eq_unhashable_iff {vs : List Value} :
    plans vs = .error (.unhashable typeName) ↔ ∃ before v after, vs = before ++ v :: after ∧
      (∀ u ∈ before, ∃ p, checkPlan u = .ok p) ∧ unhashableTypeOf? v = some typeName := by
  rw [plans, mapM_eq_error_iff]
  simp only [settle_inPlan_eq_ok_iff, mapError_inPlan_eq_unhashable_iff, settle_eq_unhashable_iff,
    unhashable?_checkPlan]

/-- **Reading plan data fails with an error of the plan file, or not at all**, but for one case: in the
first plan that is not accepted, a list, set or map stands for the type of a field.  Then the failed
look-up of that type is what reading ends with. -/
theorem read_fails_otherwise_iff (es : Entries Value) (e : Failure) :
    (read es = .error e ∧ ∀ x, e ≠ .plan x) ↔
      ∃ before v after typeName, entities es = .ok (before ++ v :: after) ∧
        (∀ u ∈ before, ∃ p, checkPlan u = .ok p) ∧ unhashableTypeOf? v = some typeName ∧
        e = .unhashable typeName := by
  constructor
  · rintro ⟨hread, hother⟩
    obtain ⟨x, rfl⟩ | ⟨typeName, rfl⟩ := of_read hread
    · exact absurd rfl (hother x)
    rcases of_bind_error hread with h | ⟨vs, hentities, h⟩
    · obtain ⟨x, -, he⟩ := of_mapError h
      cases he
    have hvs : entities es = .ok vs := by
      cases hes : entities es with
      | error x =>
        rw [hes] at hentities
        cases hentities
      | ok vs' =>
        rw [hes] at hentities
        cases hentities
        rfl
    rcases of_bind_error h with h | ⟨ps, -, h⟩
    · obtain ⟨before, v, after, rfl, hbefore, hv⟩ := plans_eq_unhashable_iff.mp h
      exact ⟨before, v, after, typeName, hvs, hbefore, hv, rfl⟩
    -- no look-up fails in a configuration
    rcases of_bind_error h with h | ⟨c, -, h⟩
    · have hconfig := settle_eq_unhashable_iff.mp (mapError_inPlan_eq_unhashable_iff.mp h)
      rw [(faultsIn_checkConfig _).unhashable?] at hconfig
      cases hconfig
    · cases h
  · rintro ⟨before, v, after, typeName, hentities, hbefore, hv, rfl⟩
    refine ⟨?_, fun x => nofun⟩
    have hplans := plans_eq_unhashable_iff.mpr ⟨before, v, after, rfl, hbefore, hv⟩
    rw [read, hentities]
    simp only [Except.mapError, bind, Except.bind, hplans]

example : read (Value.named [("entity", .map (Value.named [("name", .text "Post"),
    ("fields", .list [.map (Value.named [("name", .text "tags"),
      ("type", .list [.text "json"])])])]))]) = .error (.unhashable "list") := by
  rfl

end PlanData

end EntityScaffold
