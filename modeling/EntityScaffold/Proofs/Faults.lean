import EntityScaffold.Schema.Assignment

/-!
# Which faults data have

Reading data comes to a value or to faults, and the faults of a whole are those of its parts.  Hence
what holds of the faults of every check holds of the faults of a record that is read by them.

* `Schema.Checked.FaultsIn` — all faults are of certain kinds; one lemma for each way of putting
  checks together.
* `Schema.faultsIn_checkConfig` — no setting of a configuration is looked up as a name.
* `Schema.rejected_of_settle` — such data are rejected, with all their faults.
-/

set_option autoImplicit false

namespace EntityScaffold.Schema

open Text

namespace Checked

variable {α β : Type} {ok : FaultKind → Prop}

/-- All faults are of these kinds. -/
def FaultsIn (ok : FaultKind → Prop) : Checked α → Prop
  | .ok _ => True
  | .error faults => ∀ f ∈ faults, ok f.kind

theorem FaultsIn.pure (a : α) : FaultsIn ok (pure a : Checked α) := trivial

theorem FaultsIn.fail {kind : FaultKind} (h : ok kind) : FaultsIn ok (fail kind : Checked α) := by
  intro f hf
  rw [List.mem_singleton.mp hf]
  exact h

theorem FaultsIn.map {r : Checked α} (f : α → β) (h : FaultsIn ok r) : FaultsIn ok (f <$> r) := by
  cases r with
  | ok a => trivial
  | error faults => exact h

theorem FaultsIn.seq {f : Checked (α → β)} {r : Checked α} (hf : FaultsIn ok f)
    (hr : FaultsIn ok r) : FaultsIn ok (f <*> r) := by
  cases f with
  | ok g =>
    cases r with
    | ok a => trivial
    | error faults => exact hr
  | error faults =>
    cases r with
    | ok a => exact hf
    | error faults' => exact fun f hmem => (List.mem_append.mp hmem).elim (hf f) (hr f)

theorem FaultsIn.seqLeft {r : Checked α} {u : Checked β} (hr : FaultsIn ok r)
    (hu : FaultsIn ok u) : FaultsIn ok (r <* u) :=
  (hr.map (Function.const β)).seq hu

/-- Where a fault stands does not matter to its kind. -/
theorem FaultsIn.under {r : Checked α} (k : Key) (h : FaultsIn ok r) : FaultsIn ok (r.under k) := by
  cases r with
  | ok a => trivial
  | error faults =>
    intro f hf
    obtain ⟨f', hf', rfl⟩ := List.mem_map.mp hf
    exact h f' hf'

theorem FaultsIn.optional {es : Entries Value} {s : Slot} {default : α}
    {check : Value → Checked α} (h : ∀ v, FaultsIn ok (check v)) :
    FaultsIn ok (optional es s default check) := by
  unfold Schema.optional
  split
  · exact (h _).under _
  · exact .pure _

theorem FaultsIn.noOthers {es : Entries Value} {slots : List Slot} (hunknown : ok .unknownKey)
    (hinvalid : ok .invalidKey) : FaultsIn ok (noOthers es slots) := by
  have hkey : ∀ e ∈ es.filterMap fun e => keyFault? (slots.map (·.used es)) e.1, ok e.kind := by
    intro f hf
    obtain ⟨e, -, hf⟩ := List.mem_filterMap.mp hf
    unfold keyFault? at hf
    split at hf
    · split at hf
      · cases hf
      · cases hf
        exact hunknown
    · cases hf
      exact hinvalid
  unfold Schema.noOthers
  generalize es.filterMap (fun e => keyFault? (slots.map (·.used es)) e.1) = faults at hkey ⊢
  cases faults with
  | nil => trivial
  | cons f faults => exact hkey

end Checked

open Checked

/-! ## Configurations -/

/-- The fault is not that of a list, set or map in the place of a name. -/
def FaultKind.IsHashable (k : FaultKind) : Prop := ∀ typeName, k ≠ .unhashable typeName

section

variable (v : Value)

theorem faultsIn_checkText : FaultsIn FaultKind.IsHashable (checkText v) := by
  unfold checkText
  split
  · exact .pure _
  · exact .fail fun _ => nofun
  · exact .fail fun _ => nofun

theorem faultsIn_checkNamespace : FaultsIn FaultKind.IsHashable (checkNamespace v) := by
  have htext := faultsIn_checkText v
  unfold checkNamespace
  split
  · rename_i hfaults
    rwa [hfaults] at htext
  · split
    · exact .fail fun _ => nofun
    · exact .pure _

theorem faultsIn_checkPath : FaultsIn FaultKind.IsHashable (checkPath v) := by
  unfold checkPath
  split
  · exact .pure _
  · exact .fail fun _ => nofun

theorem faultsIn_boolOfInt (n : Int) : FaultsIn FaultKind.IsHashable (boolOfInt n) := by
  unfold boolOfInt
  split
  · exact .pure _
  split
  · exact .pure _
  · refine .fail fun _ => ?_
    split <;> exact nofun

theorem faultsIn_boolOfText (t : Text) : FaultsIn FaultKind.IsHashable (boolOfText t) := by
  unfold boolOfText
  dsimp only
  split
  · exact .pure _
  split
  · exact .pure _
  · exact .fail fun _ => nofun

theorem faultsIn_checkBool : FaultsIn FaultKind.IsHashable (checkBool v) := by
  unfold checkBool
  split
  · exact faultsIn_boolOfText _
  · exact .fail fun _ => nofun
  · exact .pure _
  · exact faultsIn_boolOfInt _
  · split
    · split
      · exact .fail fun _ => nofun
      · exact faultsIn_boolOfInt _
    · exact .fail fun _ => nofun
  · exact .fail fun _ => nofun

theorem faultsIn_intOfText (t : Text) : FaultsIn FaultKind.IsHashable (intOfText t) := by
  unfold intOfText
  split
  · exact .pure _
  · exact .fail fun _ => nofun
  · exact .fail fun _ => nofun

theorem faultsIn_intOfFloat (x : Binary64) : FaultsIn FaultKind.IsHashable (intOfFloat x) := by
  unfold intOfFloat
  split
  · split
    · exact .pure _
    · exact .fail fun _ => nofun
  · exact .fail fun _ => nofun
  · exact .fail fun _ => nofun

theorem faultsIn_checkInt : FaultsIn FaultKind.IsHashable (checkInt v) := by
  unfold checkInt
  split
  · exact faultsIn_intOfText _
  · exact .fail fun _ => nofun
  · exact .pure _
  · exact .pure _
  · exact faultsIn_intOfFloat _
  · exact .fail fun _ => nofun

theorem faultsIn_checkBetween (least greatest : Nat) :
    FaultsIn FaultKind.IsHashable (checkBetween least greatest v) := by
  have hint := faultsIn_checkInt v
  unfold checkBetween
  split
  · rename_i hfaults
    rwa [hfaults] at hint
  · split
    · exact .fail fun _ => nofun
    split
    · exact .fail fun _ => nofun
    · exact .pure _

/-- **No setting of a configuration is looked up as a name.** -/
theorem faultsIn_checkConfig : FaultsIn FaultKind.IsHashable (checkConfig v) := by
  unfold checkConfig checkMap
  split
  · refine .seqLeft ?_ (.noOthers (fun _ => nofun) fun _ => nofun)
    -- the settings, from the last to the first
    refine .seq (.seq (.seq (.seq (.seq (.seq (.seq (.seq (.seq (.seq (.map _ ?_) ?_) ?_) ?_) ?_) ?_)
      ?_) ?_) ?_) ?_) ?_
    · exact .optional faultsIn_checkPath
    · exact .optional faultsIn_checkPath
    · exact .optional faultsIn_checkNamespace
    · exact .optional faultsIn_checkNamespace
    · exact .optional faultsIn_checkNamespace
    · exact .optional faultsIn_checkText
    · exact .optional faultsIn_checkBool
    · exact .optional fun v => faultsIn_checkBetween v 2 8
    · exact .optional faultsIn_checkBool
    · exact .optional faultsIn_checkBool
    · exact .optional faultsIn_checkBool
  · exact .fail fun _ => nofun

end

/-- Data without such a fault are rejected. -/
theorem rejected_of_settle {α : Type} {model : Text} {r : Checked α} {e : Failure}
    (hr : FaultsIn FaultKind.IsHashable r) (h : settle model r = .error e) :
    ∃ faults, r = .error faults ∧ e = .rejected ⟨model, faults⟩ := by
  cases r with
  | ok a => cases h
  | error faults =>
    cases h
    refine ⟨faults, rfl, ?_⟩
    unfold failureOf
    split
    · rename_i typeName hsome
      obtain ⟨f, hf, hname⟩ := List.exists_of_findSome?_eq_some hsome
      split at hname
      · rename_i hkind
        exact absurd hkind (hr f hf _)
      · cases hname
    · rfl

end EntityScaffold.Schema
