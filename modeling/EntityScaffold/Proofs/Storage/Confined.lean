import EntityScaffold.Proofs.Storage.Directories
import EntityScaffold.Proofs.Text.Utf8

/-!
# Which failures a task may end with

A task is run from a tree in which something holds.  It keeps holding, the task leaves a part of its
state as it is, and it fails in certain ways only.

* `Task.Confined` — a task keeps `inv` and what `view` shows, and fails with `ok` only; it holds of
  tasks that are put together from such tasks.
* `Usual` — what has to hold of `inv` and `ok` for the tasks of the store.
* `Store.confined_withLock`, `Store.confined_save` — the tasks of the store.
* `Store.confined_entities` — listing the entities fails only where a name is too long.
* `AllText.stable` — a tree of text files stays one.
-/

set_option autoImplicit false

namespace EntityScaffold.Storage

open Text

namespace Task

variable {σ τ ρ π α β : Type}

/-- From a tree in `inv` the task leads to such a tree and keeps what `view` shows of its state, and
if it fails it fails with `ok`. -/
def Confined (inv : Tree → Prop) (ok : Failure → Prop) (view : σ → ρ) (t : Task σ α) : Prop :=
  ∀ s w, inv w.tree → inv ((t.program s).run w).2.tree ∧
    view ((t.program s).run w).1.2 = view s ∧ ∀ e, ((t.program s).run w).1.1 = .error e → ok e

section

variable {inv : Tree → Prop} {ok ok' : Failure → Prop} {view : σ → ρ} {t : Task σ α}

theorem Confined.of_yields (h : Confined inv ok view t) {s s' : σ} {w w' : World} {a : α}
    (hw : inv w.tree) (hyields : Yields t s w a s' w') : inv w'.tree ∧ view s' = view s := by
  obtain ⟨htree, hview, -⟩ := h s w hw
  rw [hyields] at htree hview
  exact ⟨htree, hview⟩

/-- More failures may be expected than there are, and less be seen of the state. -/
theorem Confined.imp (seen : ρ → τ) (h : Confined inv ok view t) (hok : ∀ e, ok e → ok' e) :
    Confined inv ok' (fun s => seen (view s)) t := fun s w hw => by
  obtain ⟨htree, hview, herror⟩ := h s w hw
  exact ⟨htree, congrArg seen hview, fun e he => hok e (herror e he)⟩

theorem Confined.mono (h : Confined inv ok view t) (hok : ∀ e, ok e → ok' e) :
    Confined inv ok' view t := h.imp id hok

/-- A task that leaves every tree as it is keeps what holds of trees. -/
theorem Confined.of_same (h : ∀ held, inv held → Confined (· = held) ok view t) :
    Confined inv ok view t := fun s w hw => by
  obtain ⟨htree, hrest⟩ := h w.tree hw s w rfl
  exact ⟨htree ▸ hw, hrest⟩

theorem Confined.pure (a : α) : Confined inv ok view (pure a : Task σ α) :=
  fun _ _ hw => ⟨hw, rfl, fun _ he => nomatch he⟩

theorem Confined.throw {e : Failure} (he : ok e) : Confined inv ok view (throw e : Task σ α) := by
  intro s w hw
  refine ⟨hw, rfl, fun e' he' => ?_⟩
  cases he'
  exact he

theorem Confined.get : Confined inv ok view (get : Task σ σ) :=
  fun _ _ hw => ⟨hw, rfl, fun _ he => nomatch he⟩

theorem Confined.modify {f : σ → σ} (h : ∀ s, view (f s) = view s) :
    Confined inv ok view (modify f : Task σ PUnit) :=
  fun s _ hw => ⟨hw, h s, fun _ he => nomatch he⟩

/-- A task, and one that goes on with what it may yield. -/
theorem Confined.bind_of_yields {k : α → Task σ β} (h : Confined inv ok view t)
    (hk : ∀ a s w s' w', inv w.tree → Yields t s w a s' w' → Confined inv ok view (k a)) :
    Confined inv ok view (t >>= k) := by
  intro s w hw
  obtain ⟨htree, hview, herror⟩ := h s w hw
  rw [program_bind, Program.run_bind]
  rcases hrun : (t.program s).run w with ⟨⟨_ | a, s'⟩, w'⟩
  · rw [hrun] at htree hview herror
    refine ⟨htree, hview, fun e he => ?_⟩
    cases he
    exact herror _ rfl
  · rw [hrun] at htree hview
    rw [← show view s' = view s from hview]
    exact hk a s w s' w' hw hrun s' w' htree

theorem Confined.bind {k : α → Task σ β} (h : Confined inv ok view t)
    (hk : ∀ a, Confined inv ok view (k a)) : Confined inv ok view (t >>= k) :=
  h.bind_of_yields fun a _ _ _ _ _ _ => hk a

/-- An operation, and a task that goes on with its answer. -/
theorem Confined.perform_bind (op : Operation) (hop : ∀ w, inv w.tree → inv (op.run w).2.tree)
    {k : op.Answer → Task σ α} (hk : ∀ w, inv w.tree → Confined inv ok view (k (op.run w).1)) :
    Confined inv ok view (perform op >>= k) :=
  fun s w hw => hk w hw s (op.run w).2 (hop w hw)

/-- An attempt, and a task that goes on with its result. -/
theorem Confined.attempt_bind {k : Except Failure α → Task σ β} (h : Confined inv ok view t)
    (hok : ∀ a s w s' w', Yields t s w a s' w' → Confined inv ok' view (k (.ok a)))
    (herror : ∀ e, ok e → Confined inv ok' view (k (.error e))) :
    Confined inv ok' view (attempt t >>= k) := by
  intro s w hw
  obtain ⟨htree, hview, hfails⟩ := h s w hw
  have hattempt : (attempt t).program s =
      (t.program s).bind fun r => Program.done (.ok r.1, r.2) := rfl
  rw [program_bind, hattempt, Program.bind_assoc, Program.run_bind]
  rcases hrun : (t.program s).run w with ⟨⟨e | a, s'⟩, w'⟩
  · rw [hrun] at htree hview hfails
    rw [← show view s' = view s from hview]
    exact herror e (hfails e rfl) s' w' htree
  · rw [hrun] at htree hview
    rw [← show view s' = view s from hview]
    exact hok a s w s' w' hrun s' w' htree

theorem Confined.orOsError {r : Except OsError α} (h : ∀ e, r = .error e → ok (.os e)) :
    Confined inv ok view (orOsError r : Task σ α) := by
  cases r with
  | ok a => exact .pure a
  | error e => exact .throw (h e rfl)

theorem Confined.settle {r : Except Failure α} (h : ∀ e, r = .error e → ok e) :
    Confined inv ok view (settle r : Task σ α) := by
  cases r with
  | ok a => exact .pure a
  | error e => exact .throw (h e rfl)

theorem Confined.andFinally {last : Task σ Unit} (h : Confined inv ok view t)
    (hlast : Confined inv ok view last) : Confined inv ok view (andFinally t last) :=
  h.attempt_bind (fun a _ _ _ _ _ => hlast.bind fun _ => .settle fun _ he => nomatch he) fun _ he =>
    hlast.bind fun _ => .settle fun _ he' => by
      cases he'
      exact he

theorem Confined.onPart {get : σ → τ} {set : τ → σ → σ} {part : τ → π} {t : Task τ α}
    (hset : ∀ p s, part p = part (get s) → view (set p s) = view s)
    (h : Confined inv ok part t) : Confined inv ok view (onPart get set t) := by
  intro s w hw
  have hpart : (Task.onPart get set t).program s =
      (t.program (get s)).bind fun r => Program.done (r.1, set r.2 s) := rfl
  obtain ⟨htree, hview, herror⟩ := h (get s) w hw
  rw [hpart, Program.run_bind]
  exact ⟨htree, hset _ s hview, herror⟩

/-- A task within another one, with a state of its own. -/
theorem Confined.within {enter : σ → τ} {leave : τ → σ} {part : τ → π} {t : Task τ α}
    (h : Confined inv ok part t)
    (hleave : ∀ s inner, part inner = part (enter s) → view (leave inner) = view s) :
    Confined inv ok view (within enter leave t) := by
  intro s w hw
  have hwithin : (Task.within enter leave t).program s = (t.program (enter s)).bind fun r =>
      Program.done (r.1.map fun a => (a, r.2), leave r.2) := rfl
  obtain ⟨htree, hpart, herror⟩ := h (enter s) w hw
  rw [hwithin, Program.run_bind]
  refine ⟨htree, hleave _ _ hpart, fun e he => herror e ?_⟩
  rcases hrun : (t.program (enter s)).run w with ⟨⟨e' | a, s'⟩, w'⟩
  · rw [hrun] at he
    cases he
    rfl
  · rw [hrun] at he
    cases he

theorem Confined.record (level : Log.Level) (topic : Log.Topic) (message : Text) :
    Confined inv ok view (record level topic message : Task σ Unit) :=
  fun _ _ hw => ⟨hw, rfl, fun _ he => nomatch he⟩

theorem Confined.recordAll (rs : List Log.Record) :
    Confined inv ok view (recordAll rs : Task σ PUnit) := by
  induction rs with
  | nil => exact .pure _
  | cons r rs ih => exact .perform_bind (.record r) (fun _ hw => hw) fun _ _ => ih

theorem Confined.timed {label : Text} (h : Confined inv ok view t) :
    Confined inv ok view (timed label t) :=
  h.andFinally (.record _ _ _)

/-- Bytes without a text cannot be decoded. -/
theorem of_textOf {bytes : Bytes} {e : Failure} (h : textOf bytes = .error e) :
    ∃ d, decode bytes = .error d ∧ e = .undecodable d := by
  rw [textOf] at h
  cases hdecode : decode bytes with
  | ok text =>
    rw [hdecode] at h
    cases h
  | error d =>
    rw [hdecode] at h
    cases h
    exact ⟨d, rfl, rfl⟩

/-- Reading a file that may be missing fails where it is something else, or cannot be decoded. -/
theorem Confined.readText? {p : Path} (hos : ∀ e : OsError, e.cause ≠ .notFound → ok (.os e))
    (hundecodable : ∀ t bytes e, inv t → t.read p = .ok bytes → decode bytes = .error e →
      ok (.undecodable e)) : Confined inv ok view (readText? p : Task σ (Option Text)) := by
  refine .perform_bind (.read p) (fun _ hw => hw) fun w hw => ?_
  rw [Operation.run]
  cases hread : w.tree.read p with
  | ok bytes =>
    refine Confined.bind (.settle fun e he => ?_) fun _ => .pure _
    obtain ⟨d, hdecode, rfl⟩ := of_textOf he
    exact hundecodable w.tree bytes d hw hread hdecode
  | error cause =>
    dsimp only [Except.mapError]
    split
    · exact .pure _
    · exact .throw (hos _ ‹_›)

theorem Confined.foldlM {xs : List β} {f : α → β → Task σ α}
    (h : ∀ a, ∀ x ∈ xs, Confined inv ok view (f a x)) (a : α) :
    Confined inv ok view (xs.foldlM f a) := by
  induction xs generalizing a with
  | nil => exact .pure a
  | cons x xs ih =>
    rw [List.foldlM_cons]
    exact (h a x List.mem_cons_self).bind fun b =>
      ih (fun c y hy => h c y (List.mem_cons_of_mem x hy)) b

theorem Confined.mapM {xs : List α} {f : α → Task σ β} (h : ∀ x ∈ xs, Confined inv ok view (f x)) :
    Confined inv ok view (xs.mapM f) := by
  induction xs with
  | nil => exact .pure _
  | cons x xs ih =>
    rw [List.mapM_cons]
    exact (h x List.mem_cons_self).bind fun _ =>
      (ih fun y hy => h y (List.mem_cons_of_mem x hy)).bind fun _ => .pure _

theorem Confined.filterM {xs : List α} {f : α → Task σ Bool} (h : ∀ x, Confined inv ok view (f x)) :
    Confined inv ok view (xs.filterM f) := by
  have haux : ∀ (xs acc : List α), Confined inv ok view (List.filterAuxM f xs acc) := by
    intro xs
    induction xs with
    | nil => exact fun acc => .pure acc
    | cons x xs ih => exact fun acc => (h x).bind fun b => ih _
  exact (haux xs []).bind fun ys => .pure _

end

end Task

open Storage.Task

/-! ## The tasks of the store -/

/-- The operation writes nothing but texts. -/
def Operation.WritesText : Operation → Prop
  | .create _ bytes | .write _ bytes => ∃ content : Text, bytes = encode content
  | _ => True

/-- What holds of trees is kept by operations that write texts, and the failures are among those of
the file system, of a lock that is taken, and of a file that cannot be decoded. -/
structure Usual (inv : Tree → Prop) (ok : Failure → Prop) : Prop where
  stable : ∀ op : Operation, op.WritesText → ∀ w, inv w.tree → inv (op.run w).2.tree
  os : ∀ e, ok (.os e)
  locked : ∀ entity lock, ok (.locked entity lock)
  undecodable : ∀ t p bytes e, inv t → t.read p = .ok bytes → decode bytes = .error e →
    ok (.undecodable e)

section

variable {σ ρ α : Type} {inv : Tree → Prop} {ok : Failure → Prop} {view : σ → ρ} (h : Usual inv ok)

include h

theorem confined_perform (op : Operation) (hop : op.WritesText) {k : op.Answer → Task σ α}
    (hk : ∀ answer, Confined inv ok view (k answer)) : Confined inv ok view (perform op >>= k) :=
  .perform_bind op (h.stable op hop) fun _ _ => hk _

theorem confined_kindAt (p : Path) : Confined inv ok view (kindAt p : Task σ (Option Kind)) :=
  confined_perform h (.kind p) trivial fun _ => .orOsError fun e _ => h.os e

theorem confined_isDirectory (p : Path) : Confined inv ok view (isDirectory p : Task σ Bool) :=
  (confined_kindAt h p).bind fun _ => .pure _

theorem confined_isThere (p : Path) : Confined inv ok view (isThere p : Task σ Bool) :=
  (confined_kindAt h p).bind fun _ => .pure _

theorem confined_unlessDirectory (p : Path) (e : OsError) :
    Confined inv ok view (unlessDirectory p e : Task σ Unit) := by
  refine (confined_isDirectory h p).bind fun there => ?_
  split
  · exact .throw (h.os e)
  · exact .pure _

theorem confined_makeLast (p : Path) {missing : OsError → Task σ Unit}
    (hmissing : ∀ e, Confined inv ok view (missing e)) :
    Confined inv ok view (makeLast p missing) := by
  refine confined_perform h (.makeDir p) trivial fun answer => ?_
  cases answer with
  | ok => exact .pure _
  | error e =>
    dsimp only
    split
    · exact hmissing e
    · exact confined_unlessDirectory h p e

theorem confined_makeDirs (depth : Nat) (p : Path) :
    Confined inv ok view (makeDirs depth p : Task σ Unit) := by
  induction depth generalizing p with
  | zero =>
    rw [makeDirs_zero]
    exact confined_makeLast h p fun e => .throw (h.os e)
  | succ depth ih =>
    rw [makeDirs_succ]
    exact confined_makeLast h p fun _ => (ih p.parent).bind fun _ =>
      confined_makeLast h p fun e => .throw (h.os e)

theorem confined_ensureDirectory (p : Path) :
    Confined inv ok view (ensureDirectory p : Task σ Unit) :=
  (confined_makeDirs h _ p).bind fun _ => .record _ _ _

theorem confined_replaceFile (p : Path) (content : Text) :
    Confined inv ok view (replaceFile p (encode content) : Task σ Unit) := by
  refine confined_perform h (.freshName p.parent p.name) trivial fun name => ?_
  refine confined_perform h (.create _ []) ⟨[], rfl⟩ fun answer => ?_
  refine Confined.bind (.orOsError fun e _ => h.os e) fun _ => ?_
  refine Confined.attempt_bind (?_ : Confined inv ok view _) (fun _ _ _ _ _ _ => .pure _)
    fun e he => ?_
  · refine confined_perform h (.write _ _) ⟨content, rfl⟩ fun answer => ?_
    refine Confined.bind (.orOsError fun e _ => h.os e) fun _ => ?_
    exact confined_perform h (.rename _ p) trivial fun answer => .orOsError fun e _ => h.os e
  · refine (confined_isThere h _).bind fun there => ?_
    split
    · refine confined_perform h (.remove _) trivial fun answer => ?_
      exact Confined.bind (.orOsError fun e _ => h.os e) fun _ => .throw he
    · exact .throw he

theorem confined_writeText (p : Path) (content : Text) (atomic : Bool) :
    Confined inv ok view (writeText p content atomic : Task σ Nat) := by
  refine (confined_ensureDirectory h p.parent).bind fun _ => ?_
  cases atomic with
  | true =>
    exact (confined_replaceFile h p content).bind fun _ =>
      Confined.bind (.record _ _ _) fun _ => .pure _
  | false =>
    refine confined_perform h (.write p _) ⟨content, rfl⟩ fun answer => ?_
    exact Confined.bind (.orOsError fun e _ => h.os e) fun _ =>
      Confined.bind (.record _ _ _) fun _ => .pure _

theorem confined_readText? (p : Path) :
    Confined inv ok view (readText? p : Task σ (Option Text)) :=
  .readText? (fun e _ => h.os e) fun t bytes e => h.undecodable t p bytes e

namespace Store

variable (st : Store)

theorem confined_save (p : Path) (content : Text) :
    Confined inv ok (fun _ => ()) (st.save p content) := by
  rw [save]
  split
  · exact Confined.bind (.record _ _ _) fun _ => .pure _
  · exact (confined_writeText h p content _).bind fun _ =>
      Confined.bind (.modify fun _ => rfl) fun _ => Confined.bind (.record _ _ _) fun _ => .pure _

theorem confined_writeRepository (entity content : Text) :
    Confined inv ok (fun _ => ()) (st.writeRepository entity content) := by
  refine (confined_isThere h _).bind fun there => ?_
  split
  · exact Confined.bind (.record _ _ _) fun _ => .pure _
  · exact (confined_save h st _ content).bind fun _ => .pure _

/-- **A task behind a lock.** -/
theorem confined_withLock (entity : Text) {t : Task σ α} (ht : Confined inv ok view t) :
    Confined inv ok view (st.withLock entity t) := by
  have hacquire : Confined inv ok view (st.acquire entity : Task σ Unit) := by
    refine (confined_ensureDirectory h _).bind fun _ => ?_
    refine confined_perform h (.create _ _) ⟨st.owner, rfl⟩ fun answer => ?_
    cases answer with
    | ok => exact .record _ _ _
    | error e =>
      dsimp only
      split
      · exact .throw (h.locked _ _)
      · exact .throw (h.os e)
  have hrelease : Confined inv ok view (st.release entity : Task σ Unit) := by
    refine confined_perform h (.remove _) trivial fun answer => ?_
    cases answer with
    | ok => exact Confined.bind (.pure _) fun _ => .record _ _ _
    | error e =>
      dsimp only
      split
      · exact Confined.bind (.pure _) fun _ => .record _ _ _
      · exact Confined.bind (.throw (h.os e)) fun _ => .record _ _ _
  rw [withLock]
  split
  · exact hacquire.bind fun _ => ht.andFinally hrelease
  · exact ht

end Store

end

/-! ## Names that no file can have -/

/-- The failure of asking for a path that leads nowhere in any tree. -/
def Unnameable (e : Failure) : Prop :=
  ∃ x : OsError, e = .os x ∧ (x.cause = .nulInPath ∨ x.cause = .nameTooLong)

section

variable {t : Tree} {p : Path} {cause : OsCause}

theorem follow_error {place : Place} {name : Text} (h : t.follow place name = .error cause) :
    cause = .notFound ∨ cause = .notADirectory ∨ cause = .nameTooLong := by
  unfold Tree.follow at h
  split at h
  · cases h
    exact .inl rfl
  · cases h
    exact .inr (.inl rfl)
  · split at h
    · cases h
    · split at h <;> cases h
      exact .inr (.inr rfl)

theorem locate_error (h : t.locate p = .error cause) :
    cause = .nulInPath ∨ cause = .notFound ∨ cause = .notADirectory ∨ cause = .nameTooLong := by
  have hfold : ∀ (parts : List Text) (place : Place), parts.foldlM t.follow place = .error cause →
      cause = .notFound ∨ cause = .notADirectory ∨ cause = .nameTooLong := by
    intro parts
    induction parts with
    | nil => exact fun _ h => nomatch h
    | cons part parts ih =>
      intro place h
      rw [List.foldlM_cons] at h
      cases hfollow : t.follow place part with
      | error e =>
        rw [hfollow] at h
        cases h
        exact follow_error hfollow
      | ok next =>
        rw [hfollow] at h
        exact ih next h
  rw [Tree.locate] at h
  split at h
  · cases h
    exact .inl rfl
  · split at h
    · cases h
      exact .inr (.inr (.inr rfl))
    · exact .inr (hfold _ _ h)

/-- What a path leads to can be told unless a name in it is too long. -/
theorem kindOf_error (h : kindOf (t.look p) = .error cause) : cause = .nameTooLong := by
  rw [Tree.look] at h
  cases hlocate : t.locate p with
  | ok place =>
    rw [hlocate] at h
    change kindOf (.ok (place, t.entryAt place)) = _ at h
    rcases hentry : t.entryAt place with _ | _ | _ <;> rw [hentry] at h <;> cases h
  | error e =>
    rw [hlocate] at h
    rcases locate_error hlocate with rfl | rfl | rfl | rfl <;> cases h
    rfl

variable {σ ρ : Type} {view : σ → ρ}

theorem confined_kind_same (p : Path) :
    Confined (· = t) Unnameable view (kindAt p : Task σ (Option Kind)) := by
  refine .perform_bind (.kind p) (fun _ hw => hw) fun w _ => .orOsError fun e he => ?_
  rw [Operation.run] at he
  cases hkind : kindOf (w.tree.look p) with
  | ok kind =>
    rw [hkind] at he
    cases he
  | error cause =>
    rw [hkind] at he
    cases he
    exact ⟨_, rfl, .inr (kindOf_error hkind)⟩

/-- **Listing the entities** fails only where a name is too long to be asked for. -/
theorem Store.confined_entities (st : Store) :
    Confined (· = t) Unnameable view (st.entities : Task σ (List Text)) := by
  have hdirectory : Confined (· = t) Unnameable view
      (isDirectory st.config.entityDir : Task σ Bool) :=
    (confined_kind_same _).bind fun kind => .pure _
  refine hdirectory.bind_of_yields fun there s w s' w' hw hyields => ?_
  cases there with
  | false => exact .pure _
  | true =>
    -- the directory has a place, so its names can be told
    have hlocate : ∀ e, t.locate st.config.entityDir ≠ .error e := by
      intro e he
      have hrun := run_isDirectory (p := st.config.entityDir) s w
      rw [hyields, hw, Tree.look, he] at hrun
      cases e <;> cases hrun
    refine .perform_bind (.names _) (fun _ hw => hw) fun w hw => ?_
    refine Confined.bind (.orOsError fun e he => ?_) fun names => ?_
    · rw [Operation.run, hw] at he
      cases hplace : t.locate st.config.entityDir with
      | ok place =>
        rw [hplace] at he
        cases he
      | error e => exact absurd hplace (hlocate e)
    · refine (Confined.filterM fun q => ?_).bind fun files => .pure _
      exact (confined_kind_same q).bind fun _ => .pure _

end

/-! ## Trees of text files -/

/-- Every file can be decoded. -/
def AllText (t : Tree) : Prop :=
  ∀ place bytes, t.entryAt place = some (.file bytes) → (decode bytes).isOk = true

section

variable {t : Tree} {place : Place}

theorem AllText.set (h : AllText t) {e : Entry}
    (he : ∀ bytes, e = .file bytes → (decode bytes).isOk = true) : AllText (t.set place e) := by
  intro q bytes hq
  rw [Tree.entryAt_set] at hq
  split at hq
  · cases hq
  split at hq
  · exact he bytes (Option.some.inj hq)
  · exact h q bytes hq

theorem AllText.erase (h : AllText t) : AllText (t.erase place) := by
  intro q bytes hq
  rw [Tree.entryAt_erase] at hq
  split at hq
  · cases hq
  split at hq
  · cases hq
  · exact h q bytes hq

theorem AllText.read (h : AllText t) {p : Path} {bytes : Bytes} (hread : t.read p = .ok bytes) :
    (decode bytes).isOk = true := by
  obtain ⟨place, -, hfile⟩ := read_eq_ok.mp hread
  exact h place bytes hfile

theorem AllText.change {w : World} (h : AllText w.tree) {p : Path} {r : Except OsCause Tree}
    (hr : ∀ t, r = .ok t → AllText t) : AllText (w.change p r).2.tree := by
  cases r with
  | ok t => exact hr t rfl
  | error cause => exact h

/-- **Operations that write texts keep a tree of text files.** -/
theorem AllText.stable {op : Operation} (hop : op.WritesText) (w : World) (h : AllText w.tree) :
    AllText (op.run w).2.tree := by
  have htext : ∀ content : Text, ∀ bytes, Entry.file (encode content) = .file bytes →
      (decode bytes).isOk = true := by
    rintro content _ ⟨⟩
    rw [decode_encode]
    rfl
  cases op with
  | makeDir p =>
    refine h.change fun t ht => ?_
    obtain ⟨place, -, -, rfl⟩ := makeDir_eq_ok.mp ht
    exact h.set fun _ he => nomatch he
  | create p bytes =>
    obtain ⟨content, rfl⟩ := hop
    refine h.change fun t ht => ?_
    obtain ⟨place, -, -, rfl⟩ := create_eq_ok.mp ht
    exact h.set (htext content)
  | write p bytes =>
    obtain ⟨content, rfl⟩ := hop
    refine h.change fun t ht => ?_
    obtain ⟨place, -, -, rfl⟩ := write_eq_ok.mp ht
    exact h.set (htext content)
  | rename source target =>
    rw [Operation.run]
    cases hrename : w.tree.rename source target with
    | error cause => exact h
    | ok t =>
      obtain ⟨place, bytes, goal, -, hfile, -, -, -, rfl⟩ := rename_eq_ok.mp hrename
      refine h.erase.set fun _ he => ?_
      cases he
      exact h place bytes hfile
  | remove p =>
    refine h.change fun t ht => ?_
    obtain ⟨place, bytes, -, -, rfl⟩ := remove_eq_ok.mp ht
    exact h.erase
  | read | kind | names | freshName | say | record => exact h

end

end EntityScaffold.Storage
