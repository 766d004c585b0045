import EntityScaffold.Proofs.Reports

/-!
# What a dry run leaves

In a dry run nothing is written, and no lock is taken.  The flag is asked for in two places only, where
a file is saved and where a lock is taken; everything else that a run does to files is looking at them.

* `Still` — the task leaves the tree as it is, and what `view` shows of its state.
* `Store.still_save`, `Store.still_withLock` — the two places.
* `Generator.still_generate` — a run; `Generator.writtenFiles_of_dryRun` — its report.
-/

set_option autoImplicit false

namespace EntityScaffold

open Text Source Storage Storage.Task

namespace Storage

variable {σ τ ρ π α β : Type} {tree : Tree} {view : σ → ρ}

/-- From this tree the task comes back to it, however it ends, and it keeps what `view` shows of its
state. -/
abbrev Still (tree : Tree) (view : σ → ρ) (t : Task σ α) : Prop :=
  Confined (· = tree) (fun _ => True) view t

/-- How the task fails does not matter. -/
theorem Task.Confined.still {ok : Failure → Prop} {t : Task σ α}
    (h : Confined (· = tree) ok view t) : Still tree view t := fun s w hw =>
  ⟨(h s w hw).1, (h s w hw).2.1, fun _ _ => trivial⟩

theorem Task.Confined.forM {inv : Tree → Prop} {ok : Failure → Prop} {xs : List α}
    {f : α → Task σ PUnit} (h : ∀ x ∈ xs, Confined inv ok view (f x)) :
    Confined inv ok view (xs.forM f) := by
  induction xs with
  | nil => exact .pure _
  | cons x xs ih =>
    exact (h x List.mem_cons_self).bind fun _ => ih fun y hy => h y (List.mem_cons_of_mem x hy)

/-! ## Looking at files -/

theorem still_isThere (p : Path) : Still tree view (isThere p : Task σ Bool) :=
  (confined_kind_same p).still.bind fun _ => .pure _

theorem still_readText? (p : Path) : Still tree view (readText? p : Task σ (Option Text)) :=
  .readText? (fun _ _ => trivial) fun _ _ _ _ _ _ => trivial

/-! ## The store -/

namespace Store

variable {st : Store} (hdry : st.config.dryRun = true)

include hdry

/-- **In a dry run nothing is saved.** -/
theorem still_save (p : Path) (content : Text) :
    Still tree (fun ws : Written => ws) (st.save p content) := by
  rw [save, hdry]
  exact Confined.bind (.record _ _ _) fun _ => .pure _

theorem still_writeRepository (entity content : Text) :
    Still tree (fun ws : Written => ws) (st.writeRepository entity content) := by
  refine (still_isThere _).bind fun there => ?_
  split
  · exact Confined.bind (.record _ _ _) fun _ => .pure _
  · exact (still_save hdry _ _).bind fun _ => .pure _

/-- **In a dry run no lock is taken.** -/
theorem still_withLock (entity : Text) {t : Task σ α} (ht : Still tree view t) :
    Still tree view (st.withLock entity t) := by
  rw [withLock, locks, hdry, Bool.not_true, Bool.and_false]
  exact ht

end Store

end Storage

/-! ## The inverse sides -/

namespace Backlog

variable {tree : Tree} {store : Store} (hdry : store.config.dryRun = true)

include hdry

theorem still_patch (target : Text) (sides : List InverseSide) :
    Still tree Patch.written (patch store target sides) := by
  refine Store.still_withLock hdry target ?_
  refine Confined.bind ?_ fun source => (confined_openClass (fun _ => trivial) _ _).bind fun f => ?_
  · refine (still_readText? _).bind fun source => ?_
    cases source with
    | some source => exact .pure _
    | none =>
      exact (confined_newEntity _ _ _).bind fun _ => Confined.bind (.modify fun _ => rfl) fun _ =>
        Confined.bind (.record _ _ _) fun _ => .pure _
  · have hdeclare : ∀ (f : ClassFile) (side : InverseSide),
        Still tree Patch.written (declare store.config.indent f side) := fun f side =>
      (confined_editClass (fun _ _ _ => trivial) f).bind fun _ =>
        Confined.bind (.modify fun _ => rfl) fun _ => .pure _
    refine Confined.bind (.foldlM (fun f side _ => hdeclare f side) f) fun f => ?_
    have hwrite : Still tree Patch.written (onPart Patch.written (fun ws p => { p with written := ws })
        (store.write target f.serialize)) :=
      .onPart (fun _ _ h => h) (Store.still_save hdry _ _)
    exact hwrite.bind fun _ => .modify fun _ => rfl

theorem still_drainTarget (work : Text × List InverseSide) :
    Still tree (fun ws : Storage.Written => ws) (drainTarget store work) := by
  obtain ⟨target, sides⟩ := work
  have hsettle : Still tree Patch.written (settleTarget store target sides) := by
    refine (still_patch hdry target sides).attempt_bind (fun _ _ _ _ _ _ => .pure _) fun e _ => ?_
    dsimp only
    split
    · exact Confined.bind (.modify fun _ => rfl) fun _ => .record _ _ _
    · exact .throw trivial
  -- what has been written goes into the work on the target and comes back
  exact Confined.bind (.within hsettle.timed fun _ _ h => h) fun _ => .pure _

theorem still_workOff : Still tree Pending.written (workOff store) := by
  have hdrain : ∀ b, Still tree (fun ws : Storage.Written => ws) (drain store b) := fun b =>
    Confined.bind (.mapM fun work _ => still_drainTarget hdry work) fun _ =>
      Confined.bind (.record _ _ _) fun _ => .pure _
  exact Confined.bind .get fun p => Confined.bind (.modify fun _ => rfl) fun _ =>
    .onPart (fun _ _ h => h) (hdrain p.backlog)

end Backlog

/-! ## Runs -/

namespace Generation.Generator

open Validation

section

variable {tree : Tree} {g : Generator} {p : Plan}

theorem still_note (f : Report → Report) : Still tree Run.written (note f) := .modify fun _ => rfl

theorem still_checkPlan : Still tree Run.written (g.checkPlan p) := by
  refine Confined.bind (.timed confined_validate.still) fun issues => (still_note _).bind fun _ => ?_
  split
  · exact Confined.bind (.recordAll _) fun _ => (still_note _).bind fun _ => .pure _
  · exact (still_note _).bind fun _ => Confined.bind (.recordAll _) fun _ =>
      (still_note _).bind fun _ => .pure _

theorem still_load : Still tree Run.written (g.load p) := by
  refine (still_note _).bind fun _ => Confined.bind (.timed ?_) fun f => ?_
  · refine Confined.bind ?_ fun source => confined_openClass (fun _ => trivial) _ _
    refine (still_readText? _).bind fun source => ?_
    cases source with
    | some source => exact .pure _
    | none =>
      exact (still_note _).bind fun _ => (confined_newEntity _ _ _).bind fun _ =>
        Confined.bind (.record _ _ _) fun _ => .pure _
  · exact Confined.bind .get fun _ => (still_note _).bind fun _ => .pure _

theorem still_collect (f : ClassFile) : Still tree Run.written (g.collect p f) := by
  have hcollect : ∀ r, Still tree Run.written (collectRelation g.config p.name r) := by
    intro r
    rw [collectRelation]
    cases r.resolve p.name with
    | error e => exact .throw trivial
    | ok s =>
      refine Confined.bind (.recordAll _) fun _ =>
        Confined.bind (.settle fun _ _ => trivial) fun side => ?_
      cases side with
      | none => exact .pure _
      | some side =>
        exact Confined.bind (.modify fun _ => rfl) fun _ =>
          Confined.bind (.recordAll _) fun _ => .pure _
  refine (still_note _).bind fun _ => Confined.bind (.timed ?_) fun relations => ?_
  · exact (still_note _).bind fun _ => .mapM fun r _ => hcollect r
  · exact Confined.bind .get fun _ => (still_note _).bind fun _ => .pure _

theorem still_mutate (relations : List Relation) (f : ClassFile) :
    Still tree Run.written (g.mutate p relations f) := by
  refine (still_note _).bind fun _ => Confined.bind (.timed ?_) fun f =>
    (still_note _).bind fun _ => .pure _
  exact .foldlM (fun f e _ => confined_editClass (fun _ _ _ => trivial) f) f

variable (hdry : g.config.dryRun = true)

include hdry

theorem still_save (f : ClassFile) : Still tree Run.written (g.save p f) := by
  refine (still_note _).bind fun _ => Confined.bind (.timed ?_) fun _ => still_note _
  have hstored : ∀ {α : Type} {t : Task Storage.Written α},
      Still tree (fun ws : Storage.Written => ws) t → Still tree Run.written (stored t) := fun ht =>
    .onPart (fun _ _ h => h) ht
  refine (hstored (Store.still_save hdry _ _)).bind fun _ => Confined.bind .get fun run => ?_
  split
  · exact (hstored (Store.still_writeRepository hdry _ _)).bind fun _ => .pure _
  · exact .pure _

theorem still_primary : Still tree Run.written (g.primary p) :=
  Store.still_withLock hdry _ <| still_load.bind fun f => (still_collect f).bind fun relations =>
    (still_mutate relations f).bind fun f => still_save hdry f

theorem still_settlePrimary : Still tree Run.written (g.settlePrimary p) := by
  refine (still_note _).bind fun _ =>
    (still_primary hdry).attempt_bind (fun _ _ _ _ _ _ => .pure _) fun e _ => ?_
  dsimp only
  split
  · refine Confined.bind ?_ fun _ => .pure _
    exact (still_note _).bind fun _ => Confined.bind .get fun _ => Confined.bind (.record _ _ _) fun _ =>
      (still_note _).bind fun _ => still_note _
  · exact .throw trivial

theorem still_drain : Still tree Run.written g.drain := by
  have hqueued : Still tree Run.written (queued (Backlog.workOff g.store)) :=
    .onPart (fun _ _ h => h) (Backlog.still_workOff hdry)
  refine (still_note _).bind fun _ => Confined.bind .get fun run => ?_
  dsimp only
  split
  · exact hqueued.timed.bind fun _ => (still_note _).bind fun _ => (still_note _).bind fun _ =>
      still_note _
  · exact still_note _

theorem still_run : Still tree Run.written (g.run p) := by
  refine still_checkPlan.bind fun checked => ?_
  cases checked with
  | false => exact .pure _
  | true =>
    refine (still_settlePrimary hdry).bind fun settled => ?_
    cases settled with
    | false => exact .pure _
    | true => exact still_drain hdry

theorem still_generate : Still tree (fun ws : Storage.Written => ws) (g.generate p) := by
  refine Confined.bind .get fun before => ?_
  refine Confined.bind (.within (still_run hdry) fun _ _ h => h) fun ((), run) => ?_
  dsimp only
  split
  · exact Confined.bind (.record _ _ _) fun _ => .pure _
  · exact .pure _

theorem still_generateAll (ps : List Plan) :
    Still tree (fun ws : Storage.Written => ws) (g.generateAll ps) :=
  .mapM fun _ _ => still_generate hdry

/-- **The report of a dry run lists no file.** -/
theorem writtenFiles_of_dryRun {ws ws' : Storage.Written} {w w' : World} {report : Report}
    (h : Yields (g.generate p) ws w report ws' w') : report.writtenFiles = [] := by
  obtain ⟨⟨_, run⟩, ws₁, w₁, hwithin, h⟩ := Yields.of_bind (Yields.of_get_bind h)
  have hwritten : run.written = ws :=
    ((still_run hdry).of_yields rfl (Yields.of_within hwithin).1).2
  have hlist : (run.written.drop ws.length).map Path.text = [] := by
    rw [hwritten, List.drop_length, List.map_nil]
  dsimp only at h
  split at h
  · obtain ⟨w₂, -, h⟩ := Yields.of_record_bind h
    obtain ⟨rfl, -, -⟩ := Yields.of_pure h
    exact hlist
  · obtain ⟨rfl, -, -⟩ := Yields.of_pure h
    exact hlist

end

end Generation.Generator

end EntityScaffold
