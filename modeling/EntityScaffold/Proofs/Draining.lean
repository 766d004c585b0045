import EntityScaffold.Proofs.Backlog
import EntityScaffold.Proofs.EditFailures
import EntityScaffold.Proofs.Storage.OneFile

/-!
# Working on one target

What becomes of a target depends on its own files and on nothing else: run twice, from trees in
which they are the same, the work on it comes to the same.

* `Outcome.verdict` — an outcome without the wording of a failure.
* `Backlog.agrees_body` — what is done behind the lock.
* `Backlog.yields_drainTarget` — work on a target that agrees always has an outcome.
-/

set_option autoImplicit false

namespace EntityScaffold

open Text Source Storage Storage.Task

/-- An outcome without the wording of a failure. -/
structure Verdict where
  target : Text
  properties : List Text
  path : Option Path
  created : Bool
  succeeded : Bool
  deriving DecidableEq, Repr

def Outcome.verdict (o : Outcome) : Verdict :=
  ⟨o.target, o.properties, o.path, o.created, o.succeeded⟩

namespace Storage

variable {σ ρ : Type} {view : σ → ρ} {before failed : Between}

theorem agrees_newEntity (c : Config) (name : Text) (ns : Option Text) :
    Agrees view before before failed (newEntity c name ns : Task σ Text) (newEntity c name ns) :=
  (Agrees.record _ _ _ _).bind fun _ => .pure _

theorem agrees_openClass (h : ∀ t t', before t t' → failed t t') (source : Text) (p : Path) :
    Agrees view before before failed (openClass source p : Task σ ClassFile) (openClass source p) := by
  rw [openClass]
  split
  · exact (Agrees.recordAll _).bind fun _ => .pure _
  · exact .throw rfl rfl h

theorem agrees_editClass (h : ∀ t t', before t t' → failed t t') (f : ClassFile) {e : Edit Unit}
    (he : e.FailsWith fun x => x.isContained = true) :
    Agrees view before before failed (editClass f e : Task σ ClassFile) (editClass f e) := by
  exact (Agrees.recordAll _).bind fun _ => (Agrees.settle (he _) h).bind fun _ => .pure _

end Storage

namespace Backlog

/-- What is shown of the work on a target. -/
def Patch.verdict (p : Patch) : Verdict := p.outcome.verdict

section

variable {store : Store} {target : Text} {sides : List InverseSide}
  {before mid after failed : Between}

theorem agrees_sourceOf (hread : (Operation.read (store.pathFor target)).Agrees before before)
    (hnul : (store.pathFor target).hasNul = false) (hfailed : ∀ t t', before t t' → failed t t')
    (hdecodes : ∀ t t' bytes, before t t' → t.read (store.pathFor target) = .ok bytes →
      (decode bytes).isOk = true) :
    Agrees Patch.verdict before before failed (sourceOf store target) (sourceOf store target) := by
  refine (Store.agrees_read? hread hnul hfailed hdecodes).bind fun source => ?_
  cases source with
  | some source => exact .pure _
  | none =>
    refine (agrees_newEntity _ _ _).bind fun _ => Agrees.bind (.modify fun p p' h => ?_) fun _ =>
      (Agrees.record _ _ _ _).bind fun _ => .pure _
    simp only [Patch.verdict, Outcome.verdict, Outcome.succeeded, Verdict.mk.injEq] at h ⊢
    simp [h]

theorem agrees_declare (h : ∀ t t', before t t' → failed t t') (i : Text) (f : ClassFile)
    (side : InverseSide) :
    Agrees Patch.verdict before before failed (declare i f side) (declare i f side) := by
  refine (agrees_editClass h f Edit.contained_addRelation).bind fun f =>
    Agrees.bind (.modify fun p p' h => ?_) fun _ => .pure _
  simp only [Patch.verdict, Outcome.verdict, Outcome.succeeded, Verdict.mk.injEq] at h ⊢
  simp [h]

/-- What is done behind the lock. -/
def body (store : Store) (target : Text) (sides : List InverseSide) : Task Patch Unit := do
  let source ← sourceOf store target
  let f ← openClass source (store.pathFor target)
  let f ← sides.foldlM (declare store.config.indent) f
  let path ← Task.onPart Patch.written (fun w p => { p with written := w })
    (store.write target f.serialize)
  modify fun p => { p with outcome := { p.outcome with path := some path } }

theorem patch_eq : patch store target sides = store.withLock target (body store target sides) := rfl

/-- **What is done behind the lock** agrees if reading and saving the file do. -/
theorem agrees_body (hread : (Operation.read (store.pathFor target)).Agrees before before)
    (hnul : (store.pathFor target).hasNul = false) (hfailed : ∀ t t', before t t' → failed t t')
    (hdecodes : ∀ t t' bytes, before t t' → t.read (store.pathFor target) = .ok bytes →
      (decode bytes).isOk = true)
    (hsave : ∀ content, Agrees (fun _ : Written => ()) before after failed
      (store.write target content) (store.write target content)) :
    Agrees Patch.verdict before after failed (body store target sides) (body store target sides) := by
  refine (agrees_sourceOf hread hnul hfailed hdecodes).bind fun source => ?_
  refine (agrees_openClass hfailed _ _).bind fun f => ?_
  refine (Agrees.foldlM (fun f side _ => agrees_declare hfailed _ f side) f).bind fun f => ?_
  refine ((hsave f.serialize).onPart (by intros; rfl) (by intros; assumption)).bind fun path =>
    .modify fun p p' h => ?_
  simp only [Patch.verdict, Outcome.verdict, Outcome.succeeded, Verdict.mk.injEq] at h ⊢
  simp [h]

/-- In a dry run no lock is taken and nothing is saved. -/
theorem agrees_patch_of_dryRun (hdry : store.config.dryRun = true)
    (hread : (Operation.read (store.pathFor target)).Agrees before before)
    (hnul : (store.pathFor target).hasNul = false) (hfailed : ∀ t t', before t t' → failed t t')
    (hdecodes : ∀ t t' bytes, before t t' → t.read (store.pathFor target) = .ok bytes →
      (decode bytes).isOk = true) :
    Agrees Patch.verdict before before failed (patch store target sides)
      (patch store target sides) := by
  have hlocks : store.locks = false := by simp [Store.locks, hdry]
  rw [patch_eq, Store.withLock, hlocks, if_neg Bool.false_ne_true]
  exact agrees_body hread hnul hfailed hdecodes fun content => Store.agrees_save_of_dryRun hdry content

/-- Without locks the directory is made when the file is saved. -/
theorem agrees_patch_of_unlocked (hdry : store.config.dryRun = false) (hlocks : store.locks = false)
    (hread : (Operation.read (store.pathFor target)).Agrees before before)
    (hnul : NulFree (store.pathFor target)) (hfailed : ∀ t t', before t t' → failed t t')
    (hfailed' : ∀ t t', after t t' → failed t t')
    (hdecodes : ∀ t t' bytes, before t t' → t.read (store.pathFor target) = .ok bytes →
      (decode bytes).isOk = true)
    (hdirectory : Agrees (fun _ : Written => ()) before after failed
      (ensureDirectory (store.pathFor target).parent)
      (ensureDirectory (store.pathFor target).parent))
    (hops : ∀ op : Operation, op.OnFile (store.pathFor target) → op.Agrees after after) :
    Agrees Patch.verdict before after failed (patch store target sides)
      (patch store target sides) := by
  rw [patch_eq, Store.withLock, hlocks, if_neg Bool.false_ne_true]
  exact agrees_body hread hnul.path hfailed hdecodes fun content =>
    Store.agrees_save hdry hdirectory hops hnul hfailed'

/-- With locks it is made before. -/
theorem agrees_patch_of_locked {free held : Between} (hlocks : store.locks = true)
    (hdirectory : Agrees Patch.verdict before free failed
      (ensureDirectory (store.pathFor target).parent)
      (ensureDirectory (store.pathFor target).parent))
    (hcreate : (Operation.create (store.lockPathFor target) (encode store.owner)).Agrees free free)
    (hread : (Operation.read (store.pathFor target)).Agrees free free)
    (hnul : NulFree (store.pathFor target)) (hheld : ∀ t t', free t t' → held t t')
    (hfailed : ∀ t t', held t t' → failed t t')
    (hdecodes : ∀ t t' bytes, free t t' → t.read (store.pathFor target) = .ok bytes →
      (decode bytes).isOk = true)
    (hagain : Agrees (fun _ : Written => ()) held held held
      (ensureDirectory (store.pathFor target).parent)
      (ensureDirectory (store.pathFor target).parent))
    (hops : ∀ op : Operation, op.OnFile (store.pathFor target) → op.Agrees held held) :
    Agrees Patch.verdict before held failed (patch store target sides)
      (patch store target sides) := by
  have hdry := Store.dryRun_of_locks hlocks
  have hparent : (store.lockPathFor target).parent = (store.pathFor target).parent := by
    simp [Store.lockPathFor, Path.withName, Path.parent]
  rw [patch_eq]
  refine Store.agrees_withLock hlocks (hparent ▸ hdirectory) hcreate (hops _ .unlock) hnul
    (fun t t' h => hfailed t t' (hheld t t' h)) hfailed ?_
  exact agrees_body hread hnul.path hheld hdecodes fun content =>
    Store.agrees_save hdry (hagain.of_before hheld) hops hnul fun _ _ h => h

theorem agrees_settleTarget (h : Agrees Patch.verdict before after failed
      (patch store target sides) (patch store target sides))
    (hfailed : ∀ t t', failed t t' → after t t') :
    Agrees Patch.verdict before after (fun _ _ => False) (settleTarget store target sides)
      (settleTarget store target sides) := by
  refine h.attempt_bind (fun _ => .pure _) fun e e' he he' => ?_
  dsimp only
  rw [if_pos he, if_pos he']
  refine Agrees.mono (Agrees.bind (.modify fun p p' h => ?_) fun _ => .record _ _ _ _) hfailed
    fun _ _ h => h
  simp only [Patch.verdict, Outcome.verdict, Outcome.succeeded, Verdict.mk.injEq] at h ⊢
  simp [h]

/-- The outcome is what the work leaves. -/
theorem yields_of_settleTarget {ws : Written} {w v : World} {p : Patch} {u : Unit}
    (h : Yields (timed ("drain " ++ target) (settleTarget store target sides))
      ⟨ws, { target := target }⟩ w u p v) :
    Yields (drainTarget store (target, sides)) ws w p.outcome p.written v := by
  have hbind : (drainTarget store (target, sides)).program ws =
      ((within (fun w => ⟨w, { target := target }⟩) Patch.written
        (timed ("drain " ++ target) (settleTarget store target sides))).program ws).bind _ :=
    program_bind _ _ _
  have hwithin : (within (fun w => (⟨w, { target := target }⟩ : Patch)) Patch.written
      (timed ("drain " ++ target) (settleTarget store target sides))).program ws =
      ((timed ("drain " ++ target) (settleTarget store target sides)).program
        ⟨ws, { target := target }⟩).bind fun r =>
          Program.done (r.1.map fun u => (u, r.2), r.2.written) := rfl
  rw [Yields, hbind, Program.run_bind, hwithin, Program.run_bind, h]
  rfl

/-- **Work on a target that agrees has an outcome**, and both runs have the same verdict. -/
theorem yields_drainTarget (h : Agrees Patch.verdict before after failed
      (patch store target sides) (patch store target sides))
    (hfailed : ∀ t t', failed t t' → after t t') (ws ws' : Written) {w w' : World}
    (hw : before w.tree w'.tree) :
    ∃ o vs v o' vs' v', Yields (drainTarget store (target, sides)) ws w o vs v ∧
      Yields (drainTarget store (target, sides)) ws' w' o' vs' v' ∧ o.verdict = o'.verdict ∧
        after v.tree v'.tree := by
  have htimed : Agrees Patch.verdict before after (fun _ _ => False)
      (timed ("drain " ++ target) (settleTarget store target sides))
      (timed ("drain " ++ target) (settleTarget store target sides)) :=
    (agrees_settleTarget h hfailed).timed
  have hmeet := htimed ⟨ws, { target := target }⟩ ⟨ws', { target := target }⟩ w w' rfl hw
  generalize hr : ((timed ("drain " ++ target) (settleTarget store target sides)).program
      ⟨ws, { target := target }⟩).run w = r,
    hr' : ((timed ("drain " ++ target) (settleTarget store target sides)).program
      ⟨ws', { target := target }⟩).run w' = r' at hmeet
  cases hmeet with
  | ok a hview hafter =>
    exact ⟨_, _, _, _, _, _, yields_of_settleTarget hr, yields_of_settleTarget hr', hview, hafter⟩
  | error _ _ _ hfalse => exact hfalse.elim

end

end Backlog

end EntityScaffold
