import EntityScaffold.Proofs.Storage.Saving

/-!
# Files that are left as they were

A lock and a file written to be moved are made and go again.  So what a task does to files step by
step is more than what is left of it in the end.

* `Untouched` — of two trees: every place holds what it held, but for directories where nothing was.
* `Beside` — one file more, at a path where nothing was; `Beside.remove` — it goes again.
* `Program.writes` — whether a run writes the file at a path.
* `Task.Spares` — the task leaves all files as they were if it ends before that file is written;
  it holds of a task that is put together from such tasks.
* `Store.spares_save`, `Store.spares_withLock` — saving the file, and working behind a lock.
-/

set_option autoImplicit false

namespace EntityScaffold.Storage

open Text

/-! ## Trees -/

/-- Every place holds what it held, but for directories where nothing was. -/
def Untouched (t t' : Tree) : Prop :=
  ∀ q, t'.entryAt q = t.entryAt q ∨ t.entryAt q = none ∧ t'.entryAt q = some .directory

section

variable {t t' t'' : Tree} {p : Path} {bytes : Bytes}

theorem Untouched.refl (t : Tree) : Untouched t t := fun _ => .inl rfl

theorem Untouched.trans (h : Untouched t t') (h' : Untouched t' t'') : Untouched t t'' := by
  intro q
  rcases h' q with h' | ⟨hnone, hdir⟩
  · rw [h']
    exact h q
  · rcases h q with h | ⟨-, h⟩
    · exact .inr ⟨h ▸ hnone, hdir⟩
    · rw [hnone] at h
      cases h

theorem Untouched.firm (h : Untouched t t') : Firm t t' := by
  intro q hq
  rcases h q with h | ⟨hnone, -⟩
  · rw [h, hq]
  · rw [hq] at hnone
    cases hnone

/-- A file stays. -/
theorem Untouched.eq_file (h : Untouched t t') {q : Place}
    (hq : t.entryAt q = some (.file bytes)) : t'.entryAt q = some (.file bytes) := by
  rcases h q with h | ⟨hnone, -⟩
  · rw [h, hq]
  · rw [hq] at hnone
    cases hnone

/-- A file that can be read is read as before. -/
theorem Untouched.read_eq (h : Untouched t t') (hread : t.read p = .ok bytes) :
    t'.read p = .ok bytes := by
  obtain ⟨place, hplace, hfile⟩ := read_eq_ok.mp hread
  exact read_eq_ok.mpr ⟨place, h.firm.locate_eq hplace, h.eq_file hfile⟩

theorem entryAt_set_of_ne {place q : Place} (e : Entry) (hne : q ≠ place) :
    (t.set place e).entryAt q = t.entryAt q := by
  rw [Tree.entryAt_set, if_neg hne]
  split
  · rename_i hfixed
    rw [Tree.entryAt_of_isFixed t hfixed]
  · rfl

theorem entryAt_erase_of_ne {place q : Place} (hne : q ≠ place) :
    (t.erase place).entryAt q = t.entryAt q := by
  rw [Tree.entryAt_erase, if_neg hne]
  split
  · rename_i hfixed
    rw [Tree.entryAt_of_isFixed t hfixed]
  · rfl

/-- A directory that is made leaves the rest. -/
theorem untouched_makeDir (h : t.makeDir p = .ok t') : Untouched t t' := by
  obtain ⟨place, -, hnone, rfl⟩ := makeDir_eq_ok.mp h
  intro q
  by_cases hq : q = place
  · subst hq
    exact .inr ⟨hnone, entryAt_set_self _ (by simp [hnone])⟩
  · exact .inl (entryAt_set_of_ne _ hq)

/-- The second tree is the first with a file at `p`, where nothing was, and otherwise untouched. -/
def Beside (p : Path) (t t' : Tree) : Prop :=
  ∃ place bytes, t'.locate p = .ok place ∧ t.entryAt place = none ∧
    t'.entryAt place = some (.file bytes) ∧
      ∀ q, q ≠ place → t'.entryAt q = t.entryAt q ∨
        t.entryAt q = none ∧ t'.entryAt q = some .directory

theorem Beside.untouched (h : Beside p t t') (h' : Untouched t' t'') : Beside p t t'' := by
  obtain ⟨place, bytes, hplace, hnone, hfile, hothers⟩ := h
  refine ⟨place, bytes, h'.firm.locate_eq hplace, hnone, h'.eq_file hfile, fun q hq => ?_⟩
  rcases h' q with heq | ⟨hq', hdir⟩
  · rw [heq]
    exact hothers q hq
  · rcases hothers q hq with heq | ⟨-, hdir'⟩
    · exact .inr ⟨heq ▸ hq', hdir⟩
    · rw [hq'] at hdir'
      cases hdir'

/-- The file that has been added can be written. -/
theorem Beside.write (h : Beside p t t') (bytes : Bytes) :
    ∃ t'', t'.write p bytes = .ok t'' ∧ Beside p t t'' := by
  obtain ⟨place, held, hplace, hnone, hfile, hothers⟩ := h
  have hdir : t'.entryAt place ≠ some .directory := by simp [hfile]
  refine ⟨_, write_eq_ok.mpr ⟨place, hplace, hdir, rfl⟩, place, bytes,
    (firm_set _ hdir).locate_eq hplace, hnone, entryAt_set_self _ hdir, fun q hq => ?_⟩
  rw [entryAt_set_of_ne _ hq]
  exact hothers q hq

/-- The file that has been added is found. -/
theorem Beside.look (h : Beside p t t') : kindOf (t'.look p) = .ok (some .file) := by
  obtain ⟨place, bytes, hplace, -, hfile, -⟩ := h
  simp [Tree.look, hplace, hfile, kindOf, bind, Except.bind, pure, Except.pure]

/-- **Once the file that has been added is removed, nothing has been touched.** -/
theorem Beside.remove (h : Beside p t t') : ∃ t'', t'.remove p = .ok t'' ∧ Untouched t t'' := by
  obtain ⟨place, bytes, hplace, hnone, hfile, hothers⟩ := h
  refine ⟨_, remove_eq_ok.mpr ⟨place, bytes, hplace, hfile, rfl⟩, fun q => ?_⟩
  by_cases hq : q = place
  · subst hq
    rw [Tree.entryAt_erase, not_isFixed (t := t) (by simp [hnone]), if_neg Bool.false_ne_true,
      if_pos rfl, hnone]
    exact .inl rfl
  · rw [entryAt_erase_of_ne hq]
    exact hothers q hq

end

/-! ## Runs -/

/-- Whether an operation writes the file at `p`: it puts bytes there and is not refused. -/
def Operation.writes (p : Path) : Operation → World → Bool
  | .create q bytes, w => q = p && (w.tree.create q bytes).isOk
  | .write q bytes, w => q = p && (w.tree.write q bytes).isOk
  | .rename source q, w => q = p && (w.tree.rename source q).isOk
  | _, _ => false

/-- Whether the file at `p` is written at some time in a run. -/
def Program.writes {α : Type} (p : Path) : Program α → World → Bool
  | .done _, _ => false
  | .step op next, w => op.writes p w || (next (op.run w).1).writes p (op.run w).2

theorem Program.writes_bind {α β : Type} (p : Path) (x : Program α) (f : α → Program β)
    (w : World) :
    (x.bind f).writes p w = (x.writes p w || (f (x.run w).1).writes p (x.run w).2) := by
  induction x generalizing w with
  | done a => rfl
  | step op next ih =>
    simp only [Program.bind, Program.writes, Program.run, ih, Bool.or_assoc]

/-- An operation on no files leaves them as they were. -/
theorem Operation.Within.untouched {op : Operation} (h : op.Within fun _ => False) (w : World) :
    Untouched w.tree (op.run w).2.tree := by
  cases op with
  | makeDir p =>
    rw [Operation.run, tree_change]
    cases hr : w.tree.makeDir p with
    | error e => exact .refl _
    | ok t => exact untouched_makeDir hr
  | create p bytes => exact h.elim
  | write p bytes => exact h.elim
  | rename source target => exact h.1.elim
  | remove p => exact h.elim
  | read p => exact .refl _
  | kind p => exact .refl _
  | names p => exact .refl _
  | freshName directory name => exact .refl _
  | say line => exact .refl _
  | record r => exact .refl _

theorem Program.Ensures.untouched {α : Type} {post : α → Prop} {x : Program α}
    (h : x.Ensures (fun _ => False) post) (w : World) : Untouched w.tree (x.run w).2.tree := by
  induction x generalizing w with
  | done a => exact .refl _
  | step op next ih => exact (Operation.Within.untouched h.1 w).trans (ih _ (h.2 w) _)

namespace Task

variable {σ τ ρ α β : Type}

/-- The task ends with a result or a failure, and the file at `p` has not been written. -/
structure EndsBefore (p : Path) (t : Task σ α) (s : σ) (w : World) (r : Except Failure α) (s' : σ)
    (w' : World) : Prop where
  run : (t.program s).run w = ((r, s'), w')
  unwritten : (t.program s).writes p w = false

section

variable {p : Path} {s s' : σ} {w w' : World} {t : Task σ α}

theorem EndsBefore.of_bind {k : α → Task σ β} {r : Except Failure β}
    (h : EndsBefore p (t >>= k) s w r s' w') :
    (∃ e, EndsBefore p t s w (.error e) s' w' ∧ r = .error e) ∨
      ∃ a s₁ w₁, EndsBefore p t s w (.ok a) s₁ w₁ ∧ EndsBefore p (k a) s₁ w₁ r s' w' := by
  obtain ⟨hrun, hunwritten⟩ := h
  rw [program_bind, Program.run_bind] at hrun
  rw [program_bind, Program.writes_bind, Bool.or_eq_false_iff] at hunwritten
  obtain ⟨hfirst, hrest⟩ := hunwritten
  cases hr : (t.program s).run w with
  | mk result w₁ =>
    obtain ⟨result, s₁⟩ := result
    rw [hr] at hrun hrest
    cases result with
    | error e =>
      cases hrun
      exact .inl ⟨e, ⟨hr, hfirst⟩, rfl⟩
    | ok a => exact .inr ⟨a, s₁, w₁, ⟨hr, hfirst⟩, hrun, hrest⟩

theorem EndsBefore.of_perform_bind {op : Operation} {k : op.Answer → Task σ β}
    {r : Except Failure β} (h : EndsBefore p (perform op >>= k) s w r s' w') :
    op.writes p w = false ∧ EndsBefore p (k (op.run w).1) s (op.run w).2 r s' w' := by
  have hunwritten : (op.writes p w || ((k (op.run w).1).program s).writes p (op.run w).2) = false :=
    h.unwritten
  rw [Bool.or_eq_false_iff] at hunwritten
  exact ⟨hunwritten.1, h.run, hunwritten.2⟩

theorem EndsBefore.of_throw {e : Failure} {r : Except Failure α}
    (h : EndsBefore p (throw e : Task σ α) s w r s' w') : r = .error e ∧ w' = w := by
  have hrun := h.run
  cases hrun
  exact ⟨rfl, rfl⟩

theorem EndsBefore.of_orOsError_bind {a : Except OsError α} {k : α → Task σ β}
    {r : Except Failure β} (h : EndsBefore p (orOsError a >>= k) s w r s' w') :
    (∃ e, a = .error e ∧ r = .error (.os e) ∧ w' = w) ∨
      ∃ b, a = .ok b ∧ EndsBefore p (k b) s w r s' w' := by
  cases a with
  | error e =>
    obtain ⟨rfl, rfl⟩ := EndsBefore.of_throw (e := .os e) h
    exact .inl ⟨e, rfl, rfl, rfl⟩
  | ok b => exact .inr ⟨b, rfl, h⟩

theorem EndsBefore.of_attempt {r : Except Failure (Except Failure α)}
    (h : EndsBefore p (attempt t) s w r s' w') :
    ∃ result, r = .ok result ∧ EndsBefore p t s w result s' w' := by
  obtain ⟨hrun, hunwritten⟩ := h
  have hbind : (attempt t).program s =
      (t.program s).bind fun r => Program.done (.ok r.1, r.2) := rfl
  rw [hbind, Program.run_bind] at hrun
  rw [hbind, Program.writes_bind, Bool.or_eq_false_iff] at hunwritten
  cases hr : (t.program s).run w with
  | mk result w₁ =>
    obtain ⟨result, s₁⟩ := result
    rw [hr] at hrun
    cases hrun
    exact ⟨result, rfl, hr, hunwritten.1⟩

end

/-- **The task leaves all files as they were if it ends before the file at `p` is written**, and
`post` holds of the result that it then has. -/
def Spares (p : Path) (post : α → Prop) (t : Task σ α) : Prop :=
  ∀ s w r s' w', EndsBefore p t s w r s' w' →
    Untouched w.tree w'.tree ∧ ∀ a, r = .ok a → post a

section

variable {p : Path} {post : α → Prop} {t : Task σ α}

/-- A failure has no result. -/
theorem no_result {e : Failure} : ∀ a, (.error e : Except Failure α) = .ok a → post a := by
  intro a h
  cases h

/-- A task that makes and changes no files does so. -/
theorem Keeps.spares {view : σ → ρ} (h : Keeps (fun _ => False) view t) :
    Spares p (fun _ => True) t := by
  intro s w r s' w' hends
  have huntouched := (h s).untouched w
  rw [hends.run] at huntouched
  exact ⟨huntouched, fun _ _ => trivial⟩

theorem Spares.imp {post' : α → Prop} (h : Spares p post t) (himp : ∀ a, post a → post' a) :
    Spares p post' t := fun s w r s' w' hends =>
  ⟨(h s w r s' w' hends).1, fun a ha => himp a ((h s w r s' w' hends).2 a ha)⟩

theorem Spares.pure {a : α} (h : post a) : Spares p post (Pure.pure a : Task σ α) := by
  intro s w r s' w' hends
  have hrun := hends.run
  cases hrun
  refine ⟨.refl _, fun b hb => ?_⟩
  cases hb
  exact h

theorem Spares.throw (e : Failure) : Spares p post (throw e : Task σ α) := by
  intro s w r s' w' hends
  obtain ⟨rfl, rfl⟩ := EndsBefore.of_throw hends
  exact ⟨.refl _, no_result⟩

theorem Spares.bind {post' : β → Prop} {k : α → Task σ β} (ht : Spares p post t)
    (hk : ∀ a, post a → Spares p post' (k a)) : Spares p post' (t >>= k) := by
  intro s w r s' w' hends
  rcases hends.of_bind with ⟨e, hfirst, rfl⟩ | ⟨a, s₁, w₁, hfirst, hrest⟩
  · exact ⟨(ht _ _ _ _ _ hfirst).1, no_result⟩
  · obtain ⟨huntouched, hpost⟩ := ht _ _ _ _ _ hfirst
    obtain ⟨huntouched', hpost'⟩ := hk a (hpost a rfl) _ _ _ _ _ hrest
    exact ⟨huntouched.trans huntouched', hpost'⟩

theorem Spares.attempt (h : Spares p post t) :
    Spares p (fun r => ∀ a, r = .ok a → post a) (attempt t) := by
  intro s w r s' w' hends
  obtain ⟨result, rfl, hresult⟩ := hends.of_attempt
  obtain ⟨huntouched, hpost⟩ := h _ _ _ _ _ hresult
  refine ⟨huntouched, fun r hr => ?_⟩
  cases hr
  exact hpost

theorem Spares.settle {r : Except Failure α} (h : ∀ a, r = .ok a → post a) :
    Spares p post (settle r : Task σ α) := by
  cases r with
  | error e => exact .throw e
  | ok a => exact .pure (h a rfl)

theorem Spares.andFinally {last : Task σ Unit} (h : Spares p post t)
    (hlast : Spares p (fun _ => True) last) : Spares p post (andFinally t last) :=
  h.attempt.bind fun _ hr => hlast.bind fun _ _ => .settle hr

theorem Spares.record (level : Log.Level) (topic : Log.Topic) (message : Text) :
    Spares p (fun _ => True) (record level topic message : Task σ Unit) := by
  have hkeeps : Keeps (fun _ => False) (fun _ : σ => ()) (Task.record level topic message) :=
    .record level topic message
  exact hkeeps.spares

theorem Spares.timed {label : Text} (h : Spares p post t) : Spares p post (timed label t) :=
  h.andFinally (.record _ _ _)

theorem Spares.onPart {get : σ → τ} {set : τ → σ → σ} {t : Task τ α} (h : Spares p post t) :
    Spares p post (onPart get set t) := by
  intro s w r s' w' hends
  obtain ⟨hrun, hunwritten⟩ := hends
  have hbind : (Task.onPart get set t).program s =
      (t.program (get s)).bind fun r => Program.done (r.1, set r.2 s) := rfl
  rw [hbind, Program.run_bind] at hrun
  rw [hbind, Program.writes_bind, Bool.or_eq_false_iff] at hunwritten
  cases hr : (t.program (get s)).run w with
  | mk result w₁ =>
    obtain ⟨result, s₁⟩ := result
    rw [hr] at hrun
    cases hrun
    exact h _ _ _ _ _ ⟨hr, hunwritten.1⟩

theorem Spares.within {enter : σ → τ} {leave : τ → σ} {t : Task τ α} (h : Spares p post t) :
    Spares p (fun _ => True) (within enter leave t) := by
  intro s w r s' w' hends
  obtain ⟨hrun, hunwritten⟩ := hends
  have hbind : (Task.within enter leave t).program s =
      (t.program (enter s)).bind fun r =>
        Program.done (r.1.map fun a => (a, r.2), leave r.2) := rfl
  rw [hbind, Program.run_bind] at hrun
  rw [hbind, Program.writes_bind, Bool.or_eq_false_iff] at hunwritten
  cases hr : (t.program (enter s)).run w with
  | mk result w₁ =>
    obtain ⟨result, s₁⟩ := result
    rw [hr] at hrun
    cases hrun
    exact ⟨(h _ _ _ _ _ ⟨hr, hunwritten.1⟩).1, fun _ _ => trivial⟩

end

end Task

/-! ## Saving a file -/

open Storage.Task

section

variable {σ α : Type} {p temporary : Path} {bytes : Bytes} {t : Tree} {s s' : σ} {w w' : World}

end

namespace Store

variable {σ α : Type} {st : Store} {p : Path} {entity : Text} {s s' : σ} {w w' : World}

end Store

end EntityScaffold.Storage
