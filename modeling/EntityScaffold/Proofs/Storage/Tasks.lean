import EntityScaffold.Proofs.Storage.Trees

/-!
# What tasks do to files

Two views of a task: which operations it may perform, and which part of its state it keeps,
whatever it meets; and what it comes to where it succeeds.

* `Task.Keeps on view` — the task changes files at certain paths only and keeps what `view` shows of
  its state; it holds of a task that is put together from such tasks.
* `Task.Yields` — the task succeeds, from one state and world to others; one lemma for each way of
  putting tasks together says what has happened then.
-/

set_option autoImplicit false

namespace EntityScaffold.Storage

open Text

/-! ## Operations of a program -/

/-- Every operation of a program is on such paths, and every result satisfies `post`. -/
def Program.Ensures {α : Type} (on : Path → Prop) (post : α → Prop) : Program α → Prop
  | .done a => post a
  | .step op next => op.Within on ∧ ∀ w, (next (op.run w).1).Ensures on post

section

variable {α β : Type} {on : Path → Prop} {post : α → Prop} {p : Program α}

theorem Program.Ensures.bind {f : α → Program β} {post' : β → Prop} (hp : p.Ensures on post)
    (hf : ∀ a, post a → (f a).Ensures on post') : (p.bind f).Ensures on post' := by
  induction p with
  | done a => exact hf a hp
  | step op next ih => exact ⟨hp.1, fun w => ih _ (hp.2 w)⟩

theorem Program.Ensures.imp {post' : α → Prop} (h : p.Ensures on post)
    (himp : ∀ a, post a → post' a) : p.Ensures on post' := by
  induction p with
  | done a => exact himp a h
  | step op next ih => exact ⟨h.1, fun w => ih _ (h.2 w)⟩

theorem Program.Ensures.result (h : p.Ensures on post) (w : World) : post (p.run w).1 := by
  induction p generalizing w with
  | done a => exact h
  | step op next ih => exact ih _ (h.2 w) _

/-- **A program on other files keeps the files called `n`.** -/
theorem Program.Ensures.kept {n : Text} (h : p.Ensures (Apart n) post) (w : World) :
    Kept n w.tree (p.run w).2.tree := by
  induction p generalizing w with
  | done a => exact .refl n _
  | step op next ih => exact (Operation.Within.kept h.1 w).trans (ih _ (h.2 w) _)

end

namespace Task

variable {σ τ ρ α β : Type}

/-- The program of a task that begins with a state. -/
def program (t : Task σ α) (s : σ) : Program (Except Failure α × σ) := (ExceptT.run t).run s

theorem program_bind (t : Task σ α) (k : α → Task σ β) (s : σ) :
    (t >>= k).program s = (t.program s).bind fun r => match r with
      | (.ok a, s') => (k a).program s'
      | (.error e, s') => .done (.error e, s') := by
  change (t.program s).bind (fun r => (ExceptT.bindCont k r.1).run r.2) = _
  congr 1
  funext r
  obtain ⟨r, s'⟩ := r
  cases r <;> rfl

/-! ## What tasks keep -/

/-- The task changes files at such paths only, and keeps what `view` shows of its state. -/
def Keeps (on : Path → Prop) (view : σ → ρ) (t : Task σ α) : Prop :=
  ∀ s, (t.program s).Ensures on fun r => view r.2 = view s

section

variable {on : Path → Prop} {view : σ → ρ}

theorem Keeps.pure (a : α) : Keeps on view (pure a) := fun _ => rfl

theorem Keeps.throw (e : Failure) : Keeps on view (throw e : Task σ α) := fun _ => rfl

theorem Keeps.get : Keeps on view get := fun _ => rfl

theorem Keeps.modify {f : σ → σ} (h : ∀ s, view (f s) = view s) :
    Keeps on view (modify f : Task σ PUnit) := h

theorem Keeps.bind {t : Task σ α} {k : α → Task σ β} (ht : Keeps on view t)
    (hk : ∀ a, Keeps on view (k a)) : Keeps on view (t >>= k) := by
  intro s
  rw [program_bind]
  refine (ht s).bind fun r hr => ?_
  obtain ⟨r, s'⟩ := r
  cases r with
  | ok a =>
    have hview : view s' = view s := hr
    rw [← hview]
    exact hk a s'
  | error e => exact hr

/-- An operation, and a task that goes on with one of its answers. -/
theorem Keeps.perform_bind (op : Operation) (h : op.Within on) {k : op.Answer → Task σ β}
    (hk : ∀ w, Keeps on view (k (op.run w).1)) : Keeps on view (perform op >>= k) := fun s =>
  ⟨h, fun w => hk w s⟩

theorem Keeps.perform (op : Operation) (h : op.Within on) :
    Keeps on view (perform op : Task σ op.Answer) := fun _ => ⟨h, fun _ => rfl⟩

theorem Keeps.orOsError (r : Except OsError α) : Keeps on view (orOsError r) := by
  cases r <;> exact fun _ => rfl

theorem Keeps.settle (r : Except Failure α) : Keeps on view (settle r) := by
  cases r <;> exact fun _ => rfl

theorem Keeps.attempt {t : Task σ α} (h : Keeps on view t) : Keeps on view (attempt t) :=
  fun s => (h s).bind fun _ hr => hr

theorem Keeps.andFinally {t : Task σ α} {last : Task σ Unit} (h : Keeps on view t)
    (hlast : Keeps on view last) : Keeps on view (andFinally t last) :=
  h.attempt.bind fun r => hlast.bind fun _ => .settle r

theorem Keeps.onPart {get : σ → τ} {set : τ → σ → σ} (hset : ∀ part s, view (set part s) = view s)
    {t : Task τ α} (h : Keeps on (fun _ => ()) t) : Keeps on view (onPart get set t) :=
  fun s => (h (get s)).bind fun _ _ => hset _ s

theorem Keeps.record (level : Log.Level) (topic : Log.Topic) (message : Text) :
    Keeps on view (record level topic message) :=
  .perform (.record _) trivial

theorem Keeps.recordAll (rs : List Log.Record) : Keeps on view (recordAll rs) := by
  induction rs with
  | nil => exact .pure _
  | cons r rs ih => exact Keeps.perform_bind (.record r) trivial fun _ => ih

theorem Keeps.timed {label : Text} {t : Task σ α} (h : Keeps on view t) :
    Keeps on view (timed label t) :=
  h.andFinally (.record _ _ _)

theorem Keeps.foldlM {xs : List β} {f : α → β → Task σ α}
    (h : ∀ a, ∀ x ∈ xs, Keeps on view (f a x)) (a : α) : Keeps on view (xs.foldlM f a) := by
  induction xs generalizing a with
  | nil => exact .pure a
  | cons x xs ih =>
    rw [List.foldlM_cons]
    exact (h a x (by simp)).bind fun b => ih (fun c y hy => h c y (List.mem_cons_of_mem x hy)) b

theorem Keeps.mapM {xs : List α} {f : α → Task σ β} (h : ∀ x ∈ xs, Keeps on view (f x)) :
    Keeps on view (xs.mapM f) := by
  induction xs with
  | nil => exact .pure _
  | cons x xs ih =>
    rw [List.mapM_cons]
    exact (h x List.mem_cons_self).bind fun _ =>
      (ih fun y hy => h y (List.mem_cons_of_mem x hy)).bind fun _ => .pure _

theorem Keeps.filterM {xs : List α} {f : α → Task σ Bool} (h : ∀ x, Keeps on view (f x)) :
    Keeps on view (xs.filterM f) := by
  have haux : ∀ (xs acc : List α), Keeps on view (List.filterAuxM f xs acc) := by
    intro xs
    induction xs with
    | nil => exact fun acc => .pure acc
    | cons x xs ih => exact fun acc => (h x).bind fun b => ih _
  exact (haux xs []).bind fun ys => .pure _

end

/-- A task within another one, as far as files are concerned. -/
theorem Keeps.within {on : Path → Prop} {enter : σ → τ} {leave : τ → σ} {t : Task τ α}
    (h : Keeps on (fun _ => ()) t) : Keeps on (fun _ : σ => ()) (within enter leave t) := fun s =>
  (h (enter s)).bind fun _ _ => rfl

/-! ## Tasks that succeed -/

/-- The task succeeds with a result, a state and a world. -/
def Yields (t : Task σ α) (s : σ) (w : World) (a : α) (s' : σ) (w' : World) : Prop :=
  (t.program s).run w = ((.ok a, s'), w')

section

variable {s s' : σ} {w w' : World} {a : α} {b : β}

theorem Yields.of_bind {t : Task σ α} {k : α → Task σ β} (h : Yields (t >>= k) s w b s' w') :
    ∃ a s₁ w₁, Yields t s w a s₁ w₁ ∧ Yields (k a) s₁ w₁ b s' w' := by
  rw [Yields, program_bind, Program.run_bind] at h
  cases hr : (t.program s).run w with
  | mk r w₁ =>
    obtain ⟨r, s₁⟩ := r
    rw [hr] at h
    cases r with
    | error e => cases h
    | ok a => exact ⟨a, s₁, w₁, hr, h⟩

theorem Yields.of_pure {c : α} (h : Yields (pure c : Task σ α) s w a s' w') :
    a = c ∧ s' = s ∧ w' = w := by
  cases h
  exact ⟨rfl, rfl, rfl⟩

theorem Yields.of_throw {e : Failure} (h : Yields (throw e : Task σ α) s w a s' w') : False := by
  cases h

theorem Yields.of_get_bind {k : σ → Task σ β} (h : Yields (get >>= k) s w b s' w') :
    Yields (k s) s w b s' w' := h

theorem Yields.of_modify {f : σ → σ} {u : PUnit}
    (h : Yields (modify f : Task σ PUnit) s w u s' w') : s' = f s ∧ w' = w := by
  cases h
  exact ⟨rfl, rfl⟩

theorem Yields.of_modify_bind {f : σ → σ} {k : PUnit → Task σ β}
    (h : Yields (modify f >>= k) s w b s' w') : Yields (k ⟨⟩) (f s) w b s' w' := h

theorem Yields.of_perform_bind {op : Operation} {k : op.Answer → Task σ β}
    (h : Yields (perform op >>= k) s w b s' w') :
    Yields (k (op.run w).1) s (op.run w).2 b s' w' := h

theorem Yields.of_orOsError {r : Except OsError α}
    (h : Yields (orOsError r : Task σ α) s w a s' w') : r = .ok a ∧ s' = s ∧ w' = w := by
  cases r with
  | error e => cases h
  | ok b =>
    cases h
    exact ⟨rfl, rfl, rfl⟩

theorem Yields.of_orOsError_bind {r : Except OsError α} {k : α → Task σ β}
    (h : Yields (orOsError r >>= k) s w b s' w') : ∃ a, r = .ok a ∧ Yields (k a) s w b s' w' := by
  cases r with
  | error e => cases h
  | ok a => exact ⟨a, rfl, h⟩

theorem Yields.of_settle {r : Except Failure α} (h : Yields (settle r : Task σ α) s w a s' w') :
    r = .ok a ∧ s' = s ∧ w' = w := by
  cases r with
  | error e => cases h
  | ok b =>
    cases h
    exact ⟨rfl, rfl, rfl⟩

theorem Yields.of_settle_bind {r : Except Failure α} {k : α → Task σ β}
    (h : Yields (settle r >>= k) s w b s' w') : ∃ a, r = .ok a ∧ Yields (k a) s w b s' w' := by
  cases r with
  | error e => cases h
  | ok a => exact ⟨a, rfl, h⟩

theorem Yields.of_attempt {t : Task σ α} {r : Except Failure α}
    (h : Yields (attempt t) s w r s' w') : (t.program s).run w = ((r, s'), w') := by
  have hrun : ((attempt t).program s).run w =
      (((.ok ((t.program s).run w).1.1 : Except Failure (Except Failure α)),
        ((t.program s).run w).1.2), ((t.program s).run w).2) := by
    change (Program.run (Program.bind (t.program s) _) w) = _
    rw [Program.run_bind]
    rfl
  rw [Yields, hrun] at h
  simp only [Prod.mk.injEq, Except.ok.injEq] at h
  obtain ⟨⟨rfl, rfl⟩, rfl⟩ := h
  rfl

theorem Yields.of_andFinally {t : Task σ α} {last : Task σ Unit}
    (h : Yields (andFinally t last) s w a s' w') :
    ∃ s₁ w₁, Yields t s w a s₁ w₁ ∧ Yields last s₁ w₁ () s' w' := by
  obtain ⟨r, s₁, w₁, hr, h⟩ := Yields.of_bind h
  obtain ⟨u, s₂, w₂, hlast, h⟩ := Yields.of_bind h
  obtain ⟨rfl, rfl, rfl⟩ := Yields.of_settle h
  exact ⟨s₁, w₁, Yields.of_attempt hr, hlast⟩

theorem Yields.of_onPart {get : σ → τ} {set : τ → σ → σ} {t : Task τ α}
    (h : Yields (onPart get set t) s w a s' w') :
    ∃ part, Yields t (get s) w a part w' ∧ s' = set part s := by
  have hrun : ((onPart get set t).program s).run w =
      ((((t.program (get s)).run w).1.1, set ((t.program (get s)).run w).1.2 s),
        ((t.program (get s)).run w).2) := by
    change (Program.run (Program.bind (t.program (get s)) _) w) = _
    rw [Program.run_bind]
    rfl
  rw [Yields, hrun] at h
  simp only [Prod.mk.injEq] at h
  obtain ⟨⟨hr, rfl⟩, rfl⟩ := h
  refine ⟨_, ?_, rfl⟩
  rw [Yields, ← hr]

theorem Yields.of_within {enter : σ → τ} {leave : τ → σ} {t : Task τ α} {inner : τ}
    (h : Yields (within enter leave t) s w (a, inner) s' w') :
    Yields t (enter s) w a inner w' ∧ s' = leave inner := by
  have hrun : ((within enter leave t).program s).run w =
      (((((t.program (enter s)).run w).1.1).map fun a => (a, ((t.program (enter s)).run w).1.2),
        leave ((t.program (enter s)).run w).1.2), ((t.program (enter s)).run w).2) := by
    change (Program.run (Program.bind (t.program (enter s)) _) w) = _
    rw [Program.run_bind]
    rfl
  rw [Yields, hrun] at h
  simp only [Prod.mk.injEq] at h
  obtain ⟨⟨hr, rfl⟩, rfl⟩ := h
  cases hresult : ((t.program (enter s)).run w).1.1 with
  | error e =>
    rw [hresult] at hr
    cases hr
  | ok c =>
    rw [hresult] at hr
    simp only [Except.map, Except.ok.injEq, Prod.mk.injEq] at hr
    obtain ⟨rfl, rfl⟩ := hr
    refine ⟨?_, rfl⟩
    rw [Yields, ← hresult]

theorem Yields.of_record {level : Log.Level} {topic : Log.Topic} {message : Text} {u : Unit}
    (h : Yields (record level topic message : Task σ Unit) s w u s' w') :
    s' = s ∧ w'.tree = w.tree := by
  cases h
  exact ⟨rfl, rfl⟩

theorem Yields.of_record_bind {level : Log.Level} {topic : Log.Topic} {message : Text}
    {k : Unit → Task σ β} (h : Yields (record level topic message >>= k) s w b s' w') :
    ∃ w₁, w₁.tree = w.tree ∧ Yields (k ()) s w₁ b s' w' :=
  ⟨((Operation.record ⟨level, topic, message⟩).run w).2, rfl, h⟩

theorem Yields.of_recordAll_bind {rs : List Log.Record} {k : PUnit → Task σ β}
    (h : Yields (recordAll rs >>= k) s w b s' w') :
    ∃ w₁, w₁.tree = w.tree ∧ Yields (k ⟨⟩) s w₁ b s' w' := by
  induction rs generalizing w with
  | nil => exact ⟨w, rfl, h⟩
  | cons r rs ih =>
    obtain ⟨w₁, htree, h⟩ := ih (w := ((Operation.record r).run w).2) h
    exact ⟨w₁, htree, h⟩

theorem Yields.of_timed {label : Text} {t : Task σ α} (h : Yields (timed label t) s w a s' w') :
    ∃ w₁, Yields t s w a s' w₁ ∧ w'.tree = w₁.tree := by
  obtain ⟨s₁, w₁, h₁, h₂⟩ := Yields.of_andFinally h
  obtain ⟨rfl, htree⟩ := Yields.of_record h₂
  exact ⟨w₁, h₁, htree⟩

theorem Keeps.view_eq {on : Path → Prop} {view : σ → ρ} {t : Task σ α} (ht : Keeps on view t)
    (h : Yields t s w a s' w') : view s' = view s := by
  have hresult := (ht s).result w
  rw [h] at hresult
  exact hresult

/-- **A task on other files keeps the files called `n`.** -/
theorem Keeps.kept {n : Text} {view : σ → ρ} {t : Task σ α} (ht : Keeps (Apart n) view t)
    (h : Yields t s w a s' w') : Kept n w.tree w'.tree := by
  have hkept := (ht s).kept w
  rw [h] at hkept
  exact hkept

end

end Task

end EntityScaffold.Storage
