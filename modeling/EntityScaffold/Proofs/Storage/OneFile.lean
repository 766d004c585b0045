import EntityScaffold.Proofs.Storage.Saving
import EntityScaffold.Proofs.Storage.SideBySide

/-!
# Working on one file

Reading, locking and saving a file comes down to few operations: on the file, on its lock and on
the files written to be moved there.  Where these agree, so do reading, locking and saving.

* `cause_ne_nul` — no operation on a path without NUL is refused because of one.
* `Operation.OnFile` — the operations.
* `agrees_readText?`, `Store.agrees_save`, `Store.agrees_withLock` — what they make up.
-/

set_option autoImplicit false

namespace EntityScaffold.Storage

open Text Storage.Task

/-! ## Causes -/

section

variable {t : Tree} {p q : Path} {bytes : Bytes} {cause : OsCause}

theorem bind_ne_nul {α β : Type} {x : Except OsCause α} {f : α → Except OsCause β}
    (hx : x ≠ .error .nulInPath) (hf : ∀ a, f a ≠ .error .nulInPath) :
    x >>= f ≠ .error .nulInPath := by
  cases x with
  | error e => simpa [bind, Except.bind] using hx
  | ok a => exact hf a

theorem follow_ne_nul (t : Tree) (q : Place) (name : Text) :
    t.follow q name ≠ .error .nulInPath := by
  unfold Tree.follow
  split
  · simp
  · simp
  · split
    · simp
    · split <;> simp

theorem locate_ne_nul (hp : p.hasNul = false) : t.locate p ≠ .error .nulInPath := by
  have hfold : ∀ (parts : List Text) (q : Place), parts.foldlM t.follow q ≠ .error .nulInPath := by
    intro parts
    induction parts with
    | nil => exact fun q h => nomatch h
    | cons part parts ih =>
      intro q
      rw [List.foldlM_cons]
      exact bind_ne_nul (follow_ne_nul t q part) ih
  rw [Tree.locate, hp, if_neg Bool.false_ne_true]
  split
  · simp
  · exact hfold _ _

theorem look_ne_nul (hp : p.hasNul = false) : t.look p ≠ .error .nulInPath :=
  bind_ne_nul (locate_ne_nul hp) fun _ => by simp [pure, Except.pure]

theorem makeDir_ne_nul (hp : p.hasNul = false) : t.makeDir p ≠ .error .nulInPath :=
  bind_ne_nul (look_ne_nul hp) fun (_, held) => by cases held <;> simp [pure, Except.pure]

theorem create_ne_nul (hp : p.hasNul = false) : t.create p bytes ≠ .error .nulInPath :=
  bind_ne_nul (look_ne_nul hp) fun (_, held) => by cases held <;> simp [pure, Except.pure]

theorem write_ne_nul (hp : p.hasNul = false) : t.write p bytes ≠ .error .nulInPath :=
  bind_ne_nul (look_ne_nul hp) fun (_, held) => by
    rcases held with _ | _ | _ <;> simp [pure, Except.pure]

theorem read_ne_nul (hp : p.hasNul = false) : t.read p ≠ .error .nulInPath :=
  bind_ne_nul (look_ne_nul hp) fun (_, held) => by
    rcases held with _ | _ | _ <;> simp [pure, Except.pure]

theorem remove_ne_nul (hp : p.hasNul = false) : t.remove p ≠ .error .nulInPath :=
  bind_ne_nul (look_ne_nul hp) fun (_, held) => by
    rcases held with _ | _ | _ <;> simp [pure, Except.pure]

theorem rename_ne_nul (hp : p.hasNul = false) (hq : q.hasNul = false) :
    t.rename p q ≠ .error .nulInPath := by
  refine bind_ne_nul (look_ne_nul hp) fun (_, held) => ?_
  rcases held with _ | _ | _
  · simp
  · simp
  · refine bind_ne_nul (look_ne_nul hq) fun (_, found) => ?_
    split
    · simp
    · rcases found with _ | _ | _ <;> simp [pure, Except.pure]

/-- The error of a change has the cause for which the change is refused. -/
theorem cause_of_change {w : World} {r : Except OsCause Tree} {e : OsError}
    (h : (w.change p r).1 = .error e) : r = .error e.cause := by
  cases r with
  | ok tree => cases h
  | error cause =>
    cases h
    rfl

theorem kindOf_ne_nul (r : Except OsCause (Place × Option Entry)) :
    kindOf r ≠ .error .nulInPath := by
  unfold kindOf
  split <;> simp_all

end

/-! ## Operations -/

/-- The operations that working on the file at a path comes down to. -/
inductive Operation.OnFile (p : Path) : Operation → Prop
  | read : OnFile p (.read p)
  | write (bytes : Bytes) : OnFile p (.write p bytes)
  | lock (bytes : Bytes) : OnFile p (.create (p.withName (p.name ++ ".lock")) bytes)
  | unlock : OnFile p (.remove (p.withName (p.name ++ ".lock")))
  | fresh : OnFile p (.freshName p.parent p.name)
  | begin (k : Nat) : OnFile p (.create (besides p k) [])
  | fill (k : Nat) (bytes : Bytes) : OnFile p (.write (besides p k) bytes)
  | move (k : Nat) : OnFile p (.rename (besides p k) p)
  | kind (k : Nat) : OnFile p (.kind (besides p k))
  | clear (k : Nat) : OnFile p (.remove (besides p k))

/-- No path of work on the file holds the character NUL. -/
structure NulFree (p : Path) : Prop where
  path : p.hasNul = false
  lock : (p.withName (p.name ++ ".lock")).hasNul = false
  besides : ∀ k, (Storage.besides p k).hasNul = false

variable {σ ρ α : Type} {view : σ → ρ} {before after failed : Between} {p : Path}

/-- A file that is read alike. -/
theorem agrees_read (h : ∀ t t', before t t' → t.read p = t'.read p) :
    (Operation.read p).Agrees before before := by
  intro w w' hbefore
  refine ⟨?_, hbefore⟩
  rw [Operation.run, Operation.run, h _ _ hbefore]

theorem agrees_readText? (hread : (Operation.read p).Agrees before before)
    (hnul : p.hasNul = false) (hfailed : ∀ t t', before t t' → failed t t')
    (hdecodes : ∀ t t' bytes, before t t' → t.read p = .ok bytes → (decode bytes).isOk = true) :
    Agrees view before before failed (readText? p : Task σ (Option Text)) (readText? p) := by
  refine Agrees.perform_bind hread fun w w' hbefore => ?_
  cases hr : w.tree.read p with
  | ok bytes =>
    have hanswer : (Operation.run (.read p) w).1 = .ok bytes := by
      rw [Operation.run, hr]
      rfl
    rw [hanswer]
    obtain ⟨text, htext⟩ : ∃ text, textOf bytes = .ok text := by
      have hdecoded := hdecodes _ _ bytes hbefore hr
      cases hd : decode bytes with
      | error e =>
        rw [hd] at hdecoded
        cases hdecoded
      | ok text => exact ⟨plainLineEnds text, by simp [textOf, hd, Except.map, Except.mapError]⟩
    simp only [htext]
    exact .pure (some text)
  | error cause =>
    have hanswer : (Operation.run (.read p) w).1 = .error (failAt p cause) := by
      rw [Operation.run, hr]
      rfl
    rw [hanswer]
    dsimp only
    split
    · exact .pure none
    · have hcause : cause ≠ .nulInPath := fun h => read_ne_nul hnul (h ▸ hr)
      have he : (Failure.os (failAt p cause)).isContained = true := decide_eq_true hcause
      exact .throw he he hfailed

theorem agrees_isThere (h : (Operation.kind p).Agrees before before)
    (hfailed : ∀ t t', before t t' → failed t t') :
    Agrees view before before failed (isThere p : Task σ Bool) (isThere p) := by
  refine Agrees.bind
    (Agrees.perform_bind h fun w _ _ => Agrees.orOsError (fun e he hcause => ?_) hfailed)
    fun _ => .pure _
  rw [Operation.run] at he
  cases hr : kindOf (w.tree.look p) with
  | ok kind =>
    rw [hr] at he
    cases he
  | error cause =>
    rw [hr] at he
    cases he
    have hnul : cause = .nulInPath := hcause
    exact kindOf_ne_nul _ (hnul ▸ hr)

/-- Writing the file beside its place and moving it there. -/
theorem agrees_moveIntoPlace (hops : ∀ op : Operation, op.OnFile p → op.Agrees after after)
    (hnul : NulFree p) (k : Nat) (bytes : Bytes) :
    Agrees view after after after
      (do
        Task.orOsError (← perform (.write (besides p k) bytes))
        Task.orOsError (← perform (.rename (besides p k) p)) : Task σ Unit)
      (do
        Task.orOsError (← perform (.write (besides p k) bytes))
        Task.orOsError (← perform (.rename (besides p k) p))) := by
  refine Agrees.perform_bind (hops _ (.fill k bytes)) fun w _ _ =>
    (Agrees.orOsError (fun e he h => ?_) fun _ _ h => h).bind fun _ => ?_
  · exact write_ne_nul (hnul.besides k) (h ▸ cause_of_change he)
  refine Agrees.perform_bind (hops _ (.move k)) fun w _ _ =>
    Agrees.orOsError (fun e he h => ?_) fun _ _ h => h
  rw [Operation.run] at he
  cases hr : w.tree.rename (besides p k) p with
  | error cause =>
    rw [hr] at he
    cases he
    have hcause : cause = .nulInPath := h
    exact rename_ne_nul (hnul.besides k) hnul.path (hcause ▸ hr)
  | ok tree =>
    rw [hr] at he
    cases he

theorem agrees_replaceFile (hops : ∀ op : Operation, op.OnFile p → op.Agrees after after)
    (hnul : NulFree p) (hfailed : ∀ t t', after t t' → failed t t') (bytes : Bytes) :
    Agrees view after after failed (replaceFile p bytes : Task σ Unit) (replaceFile p bytes) := by
  refine Agrees.perform_bind (hops _ .fresh) fun w _ _ => ?_
  obtain ⟨k, hk⟩ : ∃ k, (Operation.run (.freshName p.parent p.name) w).1 = temporaryName p.name k :=
    exists_freshFrom _ _ _ _
  rw [hk]
  refine Agrees.perform_bind (hops _ (.begin k)) fun w _ _ =>
    (Agrees.orOsError (fun e he h => ?_) hfailed).bind fun _ => ?_
  · exact create_ne_nul (hnul.besides k) (h ▸ cause_of_change he)
  refine (agrees_moveIntoPlace hops hnul k bytes).attempt_bind (fun _ => .pure _) fun e e' he he' => ?_
  refine (agrees_isThere (hops _ (.kind k)) hfailed).bind fun there => ?_
  cases there with
  | false => exact .throw he he' hfailed
  | true =>
    refine Agrees.perform_bind (hops _ (.clear k)) fun w _ _ =>
      (Agrees.orOsError (fun e he h => ?_) hfailed).bind fun _ => .throw he he' hfailed
    exact remove_ne_nul (hnul.besides k) (h ▸ cause_of_change he)

theorem agrees_writeText {content : Text} {atomic : Bool}
    (hdirectory : Agrees view before after failed (ensureDirectory p.parent : Task σ Unit)
      (ensureDirectory p.parent))
    (hops : ∀ op : Operation, op.OnFile p → op.Agrees after after) (hnul : NulFree p)
    (hfailed : ∀ t t', after t t' → failed t t') :
    Agrees view before after failed (writeText p content atomic : Task σ Nat)
      (writeText p content atomic) := by
  refine hdirectory.bind fun _ => ?_
  have hrecord : ∀ bytes : Bytes, Agrees view after after failed
      (do
        Task.record .debug .files ("Wrote " ++ ofNat bytes.length ++ " bytes to " ++ p.text)
        return bytes.length : Task σ Nat) (do
        Task.record .debug .files ("Wrote " ++ ofNat bytes.length ++ " bytes to " ++ p.text)
        return bytes.length) := fun _ => (Agrees.record _ _ _ _).bind fun _ => .pure _
  cases atomic with
  | true => exact (agrees_replaceFile hops hnul hfailed _).bind fun _ => hrecord _
  | false =>
    refine Agrees.perform_bind (hops _ (.write _)) fun w _ _ =>
      (Agrees.orOsError (fun e he h => ?_) hfailed).bind fun _ => hrecord _
    exact write_ne_nul hnul.path (h ▸ cause_of_change he)

namespace Store

variable {st : Store} {entity : Text}

theorem agrees_read? (hread : (Operation.read (st.pathFor entity)).Agrees before before)
    (hnul : (st.pathFor entity).hasNul = false) (hfailed : ∀ t t', before t t' → failed t t')
    (hdecodes : ∀ t t' bytes, before t t' → t.read (st.pathFor entity) = .ok bytes →
      (decode bytes).isOk = true) :
    Agrees view before before failed (st.read? entity : Task σ (Option Text)) (st.read? entity) :=
  agrees_readText? hread hnul hfailed hdecodes

/-- In a dry run nothing is done to save a file. -/
theorem agrees_save_of_dryRun {view : Written → ρ} (hdry : st.config.dryRun = true)
    (content : Text) :
    Agrees view before before failed (st.save p content) (st.save p content) := by
  rw [save, hdry]
  exact (Agrees.record _ _ _ _).bind fun _ => .pure _

/-- **Saving a file.** -/
theorem agrees_save {content : Text} (hdry : st.config.dryRun = false)
    (hdirectory : Agrees (fun _ : Written => ()) before after failed (ensureDirectory p.parent)
      (ensureDirectory p.parent))
    (hops : ∀ op : Operation, op.OnFile p → op.Agrees after after) (hnul : NulFree p)
    (hfailed : ∀ t t', after t t' → failed t t') :
    Agrees (fun _ : Written => ()) before after failed (st.save p content) (st.save p content) := by
  rw [save, hdry]
  refine (agrees_writeText hdirectory hops hnul hfailed).bind fun _ => ?_
  exact Agrees.bind (.modify fun _ _ _ => rfl) fun _ => (Agrees.record _ _ _ _).bind fun _ => .pure _

theorem agrees_acquire
    (hdirectory : Agrees view before after failed
      (ensureDirectory (st.lockPathFor entity).parent : Task σ Unit)
      (ensureDirectory (st.lockPathFor entity).parent))
    (hcreate : (Operation.create (st.lockPathFor entity) (encode st.owner)).Agrees after after)
    (hnul : NulFree (st.pathFor entity)) (hfailed : ∀ t t', after t t' → failed t t') :
    Agrees view before after failed (st.acquire entity : Task σ Unit) (st.acquire entity) := by
  refine hdirectory.bind fun _ => Agrees.perform_bind hcreate fun w _ _ => ?_
  cases hanswer : (Operation.run (.create (st.lockPathFor entity) (encode st.owner)) w).1 with
  | ok => exact .record _ _ _ _
  | error e =>
    have he : (Failure.os e).isContained = true :=
      decide_eq_true fun h => create_ne_nul hnul.lock (h ▸ cause_of_change hanswer)
    dsimp only
    split
    · exact .throw rfl rfl hfailed
    · exact .throw he he hfailed

theorem agrees_release
    (hremove : (Operation.remove (st.lockPathFor entity)).Agrees before after)
    (hnul : NulFree (st.pathFor entity)) (hfailed : ∀ t t', after t t' → failed t t') :
    Agrees view before after failed (st.release entity : Task σ Unit) (st.release entity) := by
  refine Agrees.perform_bind hremove fun w _ _ => ?_
  cases hanswer : (Operation.run (.remove (st.lockPathFor entity)) w).1 with
  | ok => exact .record _ _ _ _
  | error e =>
    have he : (Failure.os e).isContained = true :=
      decide_eq_true fun h => remove_ne_nul hnul.lock (h ▸ cause_of_change hanswer)
    dsimp only
    split
    · exact .record _ _ _ _
    · exact Agrees.bind (.throw he he hfailed) fun _ => .record _ _ _ _

/-- **Working behind a lock**: `free` relates the trees when the directory has been made, `held` once
the file may have been written. -/
theorem agrees_withLock (hlocks : st.locks = true) {free held : Between} {t t' : Task σ α}
    (hdirectory : Agrees view before free failed
      (ensureDirectory (st.lockPathFor entity).parent : Task σ Unit)
      (ensureDirectory (st.lockPathFor entity).parent))
    (hcreate : (Operation.create (st.lockPathFor entity) (encode st.owner)).Agrees free free)
    (hremove : (Operation.remove (st.lockPathFor entity)).Agrees held held)
    (hnul : NulFree (st.pathFor entity)) (hfailed : ∀ t t', free t t' → failed t t')
    (hfailed' : ∀ t t', held t t' → failed t t') (h : Agrees view free held held t t') :
    Agrees view before held failed (st.withLock entity t) (st.withLock entity t') := by
  rw [withLock, withLock, if_pos hlocks, if_pos hlocks]
  refine (agrees_acquire hdirectory hcreate hnul hfailed).bind fun _ => ?_
  exact h.andFinally (agrees_release hremove hnul hfailed')
    ((agrees_release hremove hnul fun _ _ h => h).mono hfailed' hfailed')

end Store

end EntityScaffold.Storage
