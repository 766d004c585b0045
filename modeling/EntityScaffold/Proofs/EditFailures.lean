import EntityScaffold.Backlog
import EntityScaffold.Proofs.Edits

/-!
# How edits fail

An edit fails because a name is not accepted or because a fragment cannot be read, and in no other
way.

* `Edit.FailsWith` — every failure of an edit satisfies a predicate.
* `failsWith_addField`, `failsWith_addRelation` — the failures of adding a field or a relation.
* `contained_addField`, `contained_addRelation` — they are those of the piece of work they arise in.
-/

set_option autoImplicit false

namespace EntityScaffold

open Text Source

namespace Edit

variable {α β : Type} {ok : Failure → Prop}

/-- Every failure of the edit satisfies `ok`. -/
def FailsWith (ok : Failure → Prop) (e : Edit α) : Prop :=
  ∀ d x, (e.run d).1 = .error x → ok x

theorem FailsWith.imp {ok' : Failure → Prop} {e : Edit α} (h : FailsWith ok e)
    (himp : ∀ x, ok x → ok' x) : FailsWith ok' e :=
  fun d x hx => himp x (h d x hx)

theorem FailsWith.pure (a : α) : FailsWith ok (pure a : Edit α) := by
  intro d x h
  cases h

theorem FailsWith.throw {x : Failure} (h : ok x) : FailsWith ok (throw x : Edit α) := by
  rintro d y hy
  cases hy
  exact h

theorem FailsWith.bind {e : Edit α} {k : α → Edit β} (h : FailsWith ok e)
    (hk : ∀ a, FailsWith ok (k a)) : FailsWith ok (e >>= k) := by
  intro d x hx
  rw [run_bind] at hx
  rcases hr : e.run d with ⟨_ | a, d'⟩
  · rw [hr] at hx
    cases hx
    exact h d x (by rw [hr])
  · rw [hr] at hx
    exact hk a d' x hx

theorem FailsWith.file : FailsWith ok file := by
  intro d x h
  cases h

theorem FailsWith.change (f : ClassFile → ClassFile) : FailsWith ok (change f) := by
  intro d x h
  cases h

theorem FailsWith.record (r : Log.Record) : FailsWith ok (record r) := by
  intro d x h
  cases h

theorem FailsWith.parsed {r : Except ParseError α} (h : ∀ e, ok (.unparsable e)) :
    FailsWith ok (parsed r) := by
  cases r with
  | error e => exact .throw (h e)
  | ok a => exact .pure a

/-- **Adding a field fails** with a name that is not accepted, or with a fragment that cannot be
read. -/
theorem failsWith_addField {i name : Text} {type : FieldType} {phpType : Option Text}
    {nullable : Bool} (hunparsable : ∀ e, ok (.unparsable e))
    (hname : isIdentifier name = false → ok (.refused (.invalidFieldName name))) :
    FailsWith ok (addField i name type phpType nullable) := by
  intro d x hx
  cases hid : isIdentifier name with
  | false =>
    rw [run_addField_refused hid] at hx
    cases hx
    exact hname hid
  | true =>
    revert hx
    simp only [addField, hid, Bool.not_true, Bool.false_eq_true, if_false]
    refine fun hx => FailsWith.bind .file (fun f => ?_) d x hx
    refine (FailsWith.change _).bind fun _ => (FailsWith.parsed hunparsable).bind fun p => ?_
    exact (FailsWith.change _).bind fun _ => (FailsWith.parsed hunparsable).bind fun _ =>
      (FailsWith.change _).bind fun _ => FailsWith.file.bind fun _ => .record _

theorem failsWith_ensureCollectionInit (h : ∀ e, ok (.unparsable e)) (property : Text) :
    FailsWith ok (ensureCollectionInit property) := by
  intro d x hx
  obtain ⟨log, hrun⟩ := run_ensureCollectionInit property d
  rw [hrun] at hx
  split at hx
  · cases hx
  · cases hx
    exact h _

/-- **Adding a relation fails** with a target or a property that is not accepted, or with a fragment
that cannot be read. -/
theorem failsWith_addRelation {i : Text} {r : Relation} {targetName : Option Text}
    (hunparsable : ∀ e, ok (.unparsable e))
    (htarget : isClassName ((given? targetName).getD r.targetName) = false →
      ok (.refused (.invalidTargetName ((given? targetName).getD r.targetName))))
    (hproperty : (∀ p ∈ given? r.property, isIdentifier p = false) →
      ok (.refused (.invalidPropertyName r.property))) :
    FailsWith ok (addRelation i r targetName) := by
  intro d x hx
  cases hclass : isClassName ((given? targetName).getD r.targetName) with
  | false =>
    rw [run_addRelation_target hclass] at hx
    cases hx
    exact htarget hclass
  | true =>
    by_cases hname : ∀ p ∈ given? r.property, isIdentifier p = false
    · rw [run_addRelation_property hname hclass] at hx
      cases hx
      exact hproperty hname
    · simp only [not_forall, Bool.not_eq_false] at hname
      obtain ⟨p, hp, hname⟩ := hname
      revert hx
      simp only [addRelation, hclass, Option.mem_def.mp hp, hname, Bool.not_true, Bool.false_eq_true,
        if_false]
      refine fun hx => FailsWith.bind .file (fun f => ?_) d x hx
      refine (FailsWith.parsed hunparsable).bind fun property => (FailsWith.change _).bind fun _ => ?_
      split
      · exact (failsWith_ensureCollectionInit hunparsable p).bind fun _ =>
          (FailsWith.parsed hunparsable).bind fun _ => (FailsWith.change _).bind fun _ =>
            FailsWith.file.bind fun _ => .record _
      · exact (FailsWith.change _).bind fun _ =>
          (FailsWith.parsed hunparsable).bind fun _ => (FailsWith.change _).bind fun _ =>
            FailsWith.file.bind fun _ => .record _

/-- No other work ends with an edit that fails. -/
theorem contained_addField {i name : Text} {type : FieldType} {phpType : Option Text}
    {nullable : Bool} :
    FailsWith (fun e => e.isContained = true) (addField i name type phpType nullable) :=
  failsWith_addField (fun _ => rfl) fun _ => rfl

theorem contained_addRelation {i : Text} {r : Relation} {targetName : Option Text} :
    FailsWith (fun e => e.isContained = true) (addRelation i r targetName) :=
  failsWith_addRelation (fun _ => rfl) (fun _ => rfl) fun _ => rfl

end Edit

end EntityScaffold
