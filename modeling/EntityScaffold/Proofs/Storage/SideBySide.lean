import EntityScaffold.Proofs.Storage.Tasks
import EntityScaffold.Backlog

/-!
# Two runs side by side

Two tasks are run next to each other, from states that show the same and from trees that are
related in some way.  They agree if they come to the same result, or if both fail and neither
failure ends more than the piece of work it arises in.  The trees are then related again: in one
way if the tasks succeed, in another one if they fail.

* `Operation.Agrees` — an operation gives the same answer for related trees and keeps them related.
* `Task.Agrees` — two tasks agree; it holds of tasks that are put together from such tasks.
-/

set_option autoImplicit false

namespace EntityScaffold.Storage

open Text

/-- How the trees of two runs are related. -/
abbrev Between := Tree → Tree → Prop

/-- The operation gives the same answer in both runs. -/
def Operation.Agrees (before after : Between) (op : Operation) : Prop :=
  ∀ w w' : World, before w.tree w'.tree →
    (op.run w).1 = (op.run w').1 ∧ after (op.run w).2.tree (op.run w').2.tree

namespace Task

variable {σ τ ρ π α β : Type}

/-- What two runs come to: the same result, or contained failures. -/
inductive Meet (view : σ → ρ) (after failed : Between) :
    (Except Failure α × σ) × World → (Except Failure α × σ) × World → Prop
  | ok {s s' : σ} {w w' : World} (a : α) (hview : view s = view s') (h : after w.tree w'.tree) :
      Meet view after failed ((.ok a, s), w) ((.ok a, s'), w')
  | error {s s' : σ} {w w' : World} {e e' : Failure} (he : e.isContained = true)
      (he' : e'.isContained = true) (hview : view s = view s') (h : failed w.tree w'.tree) :
      Meet view after failed ((.error e, s), w) ((.error e', s'), w')

/-- **The tasks agree**: run from states that show the same and from trees related by `before`, they
come to the same, with trees that are related by `after` or, if they fail, by `failed`. -/
def Agrees (view : σ → ρ) (before after failed : Between) (t t' : Task σ α) : Prop :=
  ∀ s s' w w', view s = view s' → before w.tree w'.tree →
    Meet view after failed ((t.program s).run w) ((t'.program s').run w')

section

variable {view : σ → ρ} {before mid after failed : Between} {t t' : Task σ α}

theorem Agrees.pure (a : α) :
    Agrees view before before failed (pure a : Task σ α) (pure a : Task σ α) :=
  fun _ _ _ _ hview h => .ok a hview h

theorem Agrees.throw {e e' : Failure} (he : e.isContained = true) (he' : e'.isContained = true)
    (h : ∀ t t', before t t' → failed t t') :
    Agrees view before after failed (throw e : Task σ α) (throw e' : Task σ α) :=
  fun _ _ _ _ hview hbefore => .error he he' hview (h _ _ hbefore)

theorem Agrees.modify {f f' : σ → σ} (h : ∀ s s', view s = view s' → view (f s) = view (f' s')) :
    Agrees view before before failed (modify f : Task σ PUnit) (modify f' : Task σ PUnit) :=
  fun s s' _ _ hview hbefore => .ok PUnit.unit (h s s' hview) hbefore

theorem Agrees.bind {k k' : α → Task σ β} (h : Agrees view before mid failed t t')
    (hk : ∀ a, Agrees view mid after failed (k a) (k' a)) :
    Agrees view before after failed (t >>= k) (t' >>= k') := by
  intro s s' w w' hview hbefore
  rw [program_bind, program_bind, Program.run_bind, Program.run_bind]
  have hmeet := h s s' w w' hview hbefore
  generalize (t.program s).run w = r, (t'.program s').run w' = r' at hmeet
  cases hmeet with
  | ok a hview hmid => exact hk a _ _ _ _ hview hmid
  | error he he' hview hfailed => exact .error he he' hview hfailed

/-- Weaker relations at the end. -/
theorem Agrees.mono {after' failed' : Between} (h : Agrees view before after failed t t')
    (hafter : ∀ t t', after t t' → after' t t') (hfailed : ∀ t t', failed t t' → failed' t t') :
    Agrees view before after' failed' t t' := by
  intro s s' w w' hview hbefore
  have hmeet := h s s' w w' hview hbefore
  generalize (t.program s).run w = r, (t'.program s').run w' = r' at hmeet
  cases hmeet with
  | ok a hview h => exact .ok a hview (hafter _ _ h)
  | error he he' hview h => exact .error he he' hview (hfailed _ _ h)

/-- A stronger relation at the start. -/
theorem Agrees.of_before {before' : Between} (h : Agrees view before after failed t t')
    (hbefore : ∀ t t', before' t t' → before t t') : Agrees view before' after failed t t' :=
  fun s s' w w' hview hw => h s s' w w' hview (hbefore _ _ hw)

/-- An operation, and tasks that go on with its answer. -/
theorem Agrees.perform_bind {op : Operation} (h : op.Agrees before mid)
    {k k' : op.Answer → Task σ α}
    (hk : ∀ w w' : World, before w.tree w'.tree →
      Agrees view mid after failed (k (op.run w).1) (k' (op.run w).1)) :
    Agrees view before after failed (perform op >>= k) (perform op >>= k') := by
  intro s s' w w' hview hbefore
  obtain ⟨hanswer, hmid⟩ := h w w' hbefore
  have hnext := hk w w' hbefore s s' (op.run w).2 (op.run w').2 hview hmid
  change Meet view after failed (((k (op.run w).1).program s).run (op.run w).2)
    (((k' (op.run w').1).program s').run (op.run w').2)
  rw [← hanswer]
  exact hnext

/-- Attempts, and tasks that go on with their results. -/
theorem Agrees.attempt_bind {k k' : Except Failure α → Task σ β} {lost : Between}
    (h : Agrees view before mid lost t t')
    (hok : ∀ a, Agrees view mid after failed (k (.ok a)) (k' (.ok a)))
    (herror : ∀ e e', e.isContained = true → e'.isContained = true →
      Agrees view lost after failed (k (.error e)) (k' (.error e'))) :
    Agrees view before after failed (attempt t >>= k) (attempt t' >>= k') := by
  intro s s' w w' hview hbefore
  have hattempt : ∀ (t : Task σ α) (k : Except Failure α → Task σ β) (s : σ),
      (attempt t >>= k).program s = (t.program s).bind fun r => (k r.1).program r.2 := by
    intro t k s
    have hbind : (attempt t).program s =
        (t.program s).bind fun r => Program.done (.ok r.1, r.2) := rfl
    rw [program_bind, hbind, Program.bind_assoc]
    rfl
  rw [hattempt, hattempt, Program.run_bind, Program.run_bind]
  have hmeet := h s s' w w' hview hbefore
  generalize (t.program s).run w = r, (t'.program s').run w' = r' at hmeet
  cases hmeet with
  | ok a hview h => exact hok a _ _ _ _ hview h
  | error he he' hview h => exact herror _ _ he he' _ _ _ _ hview h

theorem Agrees.andFinally {last : Task σ Unit} {lost : Between}
    (h : Agrees view before mid lost t t') (hok : Agrees view mid after failed last last)
    (herror : Agrees view lost failed failed last last) :
    Agrees view before after failed (andFinally t last) (andFinally t' last) :=
  h.attempt_bind (fun a => hok.bind fun _ => .pure a) fun _ _ he he' =>
    herror.bind fun _ => .throw he he' fun _ _ h => h

theorem Agrees.settle {r : Except Failure α} (hr : ∀ e, r = .error e → e.isContained = true)
    (h : ∀ t t', before t t' → failed t t') :
    Agrees view before before failed (settle r : Task σ α) (settle r) := by
  cases r with
  | error e => exact .throw (hr e rfl) (hr e rfl) h
  | ok a => exact .pure a

/-- An error of the file system is contained unless it is due to the character NUL. -/
theorem Agrees.orOsError {r : Except OsError α} (hcause : ∀ e, r = .error e → e.cause ≠ .nulInPath)
    (h : ∀ t t', before t t' → failed t t') :
    Agrees view before before failed (orOsError r : Task σ α) (orOsError r) := by
  cases r with
  | error e =>
    have he : (Failure.os e).isContained = true := by simpa [Failure.isContained] using hcause e rfl
    exact .throw he he h
  | ok a => exact .pure a

theorem Agrees.onPart {get : σ → τ} {set : τ → σ → σ} {part : τ → π} {t t' : Task τ α}
    (h : Agrees part before after failed t t')
    (hget : ∀ s s', view s = view s' → part (get s) = part (get s'))
    (hset : ∀ p p' s s', part p = part p' → view s = view s' → view (set p s) = view (set p' s')) :
    Agrees view before after failed (onPart get set t) (onPart get set t') := by
  intro s s' w w' hview hbefore
  have hbind : ∀ (t : Task τ α) (s : σ), (Task.onPart get set t).program s =
      (t.program (get s)).bind fun r => Program.done (r.1, set r.2 s) := fun _ _ => rfl
  rw [hbind, hbind, Program.run_bind, Program.run_bind]
  have hmeet := h _ _ w w' (hget s s' hview) hbefore
  generalize (t.program (get s)).run w = r, (t'.program (get s')).run w' = r' at hmeet
  cases hmeet with
  | ok a hpart h => exact .ok a (hset _ _ s s' hpart hview) h
  | error he he' hpart h => exact .error he he' (hset _ _ s s' hpart hview) h

theorem Agrees.foldlM {xs : List β} {f : α → β → Task σ α}
    (h : ∀ a, ∀ x ∈ xs, Agrees view before before failed (f a x) (f a x)) (a : α) :
    Agrees view before before failed (xs.foldlM f a) (xs.foldlM f a) := by
  induction xs generalizing a with
  | nil => exact .pure a
  | cons x xs ih =>
    rw [List.foldlM_cons]
    exact (h a x List.mem_cons_self).bind fun b =>
      ih (fun c y hy => h c y (List.mem_cons_of_mem x hy)) b

/-- Records change no tree. -/
theorem Agrees.record (level : Log.Level) (topic : Log.Topic) (message message' : Text) :
    Agrees view before before failed (record level topic message : Task σ Unit)
      (record level topic message') :=
  fun _ _ _ _ hview h => .ok () hview h

theorem Agrees.recordAll (rs : List Log.Record) :
    Agrees view before before failed (recordAll rs : Task σ PUnit) (recordAll rs) := by
  induction rs with
  | nil => exact .pure _
  | cons r rs ih => exact fun _ _ _ _ hview h => ih _ _ _ _ hview h

theorem Agrees.timed {label : Text} (h : Agrees view before after failed t t') :
    Agrees view before after failed (timed label t) (timed label t') :=
  h.andFinally (.record _ _ _ _) (.record _ _ _ _)

end

end Task

end EntityScaffold.Storage
