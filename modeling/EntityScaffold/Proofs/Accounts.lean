import EntityScaffold.Proofs.Patching
import EntityScaffold.Proofs.Reports

/-!
# What a run accounts for

Each step of a run makes moves that its rules allow; when the run has ended, nothing is in hand, and
its report accounts for all files that it has written.

* `Generator.Edits`, `Generator.rules` — what a run may write.
* `Generator.Account` — a report, and the files that have been written by the run it is of.
* `Generator.follows_generate` — a run keeps to its rules, and its report is such an account.
-/

set_option autoImplicit false

namespace EntityScaffold

open Text Storage Storage.Task Source Validation

/-! ## Names in accepted plans -/

theorem notMem_of_isClassName {name : Text} (h : isClassName name = true) : '/' ∉ name := by
  rw [isClassName, Bool.and_eq_true] at h
  intro hmem
  rcases mem_of_hasShape h.1 hmem with hc | hc | hc <;> revert hc <;> decide

namespace Storage.Store

theorem repositoryPathFor_eq_entry (st : Store) {entity : Text} (hslash : '/' ∉ shortName entity) :
    st.repositoryPathFor entity =
      st.config.repositoryDir.entry (shortName entity ++ "Repository" ++ ".php") := by
  rw [List.append_assoc]
  exact child_eq (by simpa using hslash) (by simp)

end Storage.Store

namespace Validation

variable {p : Plan}

theorem Accepted.shortName_name (h : Accepted p) : shortName p.name = p.name :=
  shortName_of_notMem (notMem_of_isEntityName h.name)

theorem Accepted.slash_name (h : Accepted p) : '/' ∉ shortName p.name := by
  rw [h.shortName_name]
  exact notMem_of_isClassName (isClassName_of_isEntityName h.name)

/-- **A queued side is for the target of a relation that asks for one.** -/
theorem Accepted.of_mem_backlog (h : Accepted p) {c : Config} {ss : List Relation} {b : Backlog}
    (hcollected : Generation.Collected c p.name p.relations ss b) {side : InverseSide}
    (hside : side ∈ b) :
    '/' ∉ shortName side.entity ∧ ∃ r ∈ p.relations, r.wantsInverse = true ∧
      shortName side.entity = shortName r.target := by
  obtain ⟨r, hr, s, hresolve, hinverse⟩ := hcollected.of_mem_backlog hside
  have hresolved := resolved_of_resolve hresolve
  have hfor := isFor_of_inverseSide hinverse
  have hname : shortName side.entity = shortName r.target := by
    rw [hfor.entity, Config.entityClass, shortName_qualify, hresolved.target]
  refine ⟨?_, r, hr, hresolved.wantsInverse ▸ hfor.wanted, hname⟩
  rw [hname]
  exact notMem_of_isClassName (h.targets r hr)

end Validation

end EntityScaffold

namespace EntityScaffold.Generation

open Text Storage Storage.Task Source Validation

/-! ## Rules -/

namespace Generator

/-- The class in the file of a plan's entity, if it holds `held`; a new one if it is not there. -/
def opened (g : Generator) (p : Plan) (held : Option Bytes) : Except Failure ClassFile := do
  let source ← held.elim (.ok (Render.entityStub g.config p.name none)) textOf
  (ClassFile.parse source (some (g.store.pathFor p.name).text)).mapError .unparsable

/-- The class that the file of a plan's entity comes to hold, if it holds `held`: with the fields and
the resolved relations in it. -/
def rewritten (g : Generator) (p : Plan) (relations : List Relation) (held : Option Bytes) :
    Except Failure ClassFile := do
  let f ← g.opened p held
  (edits g.config.indent p.fields relations).foldlM edited f

/-- A run that carries out a plan may write the file at a path if that holds `held`, and it comes to
hold `bytes` then: the entity's with fields and relations, that of a target with inverse sides. -/
def Edits (g : Generator) (p : Plan) (path : Path) (held : Option Bytes) (bytes : Bytes) : Prop :=
  ∃ relations b, Collected g.config p.name p.relations relations b ∧
    ((path = g.store.pathFor p.name ∧
        ∃ f, g.rewritten p relations held = .ok f ∧ bytes = encode f.serialize) ∨
      ∃ work ∈ Backlog.byTarget b, path = g.store.pathFor work.1 ∧
        ∃ f, Backlog.rewritten g.store work.1 work.2 (Backlog.heldAs held) = .ok f ∧
          bytes = encode f.serialize)

/-- A stub of the repository is due once the class has been written: the entity is new, and nothing
is found where its repository would be. -/
def Due (g : Generator) (p : Plan) (created : Bool) (t : Tree) : Prop :=
  created = true ∧ g.config.generateRepository = true ∧
    ¬ t.Finds (g.store.repositoryPathFor p.name)

/-- A stub has been written, or none if it is not due.  Whether it is can be told if nobody else
changes files. -/
def Stubbed (g : Generator) (p : Plan) (alone created : Bool) (t : Tree)
    (ps : List (Path × Tree)) : Prop :=
  ps = [] ∧ (alone = true → ¬ g.Due p created t) ∨
    ∃ t', ps = [(g.store.repositoryPathFor p.name, t')] ∧ created = true ∧
      g.config.generateRepository = true ∧ (alone = true → g.Due p created t)

/-- **The files that a run has written, as its report tells of it**: none; the entity's alone, where a
stub was due; or the entity's with the stub that is due, and those of all targets that have not
failed. -/
inductive Account (g : Generator) (p : Plan) (alone : Bool) :
    Report → List (Path × Tree) → Prop
  | unsaved {r : Report} (failed : r.success = false) : Account g p alone r []
  | unstubbed {r : Report} {t : Tree} (accepted : Accepted p)
      (due : alone = true → g.Due p r.created t) (validation : r.validationErrors = [])
      (generation : r.generationErrors = []) (export_ : r.exportErrors ≠ []) :
      Account g p alone r [(g.store.pathFor p.name, t)]
  | saved {r : Report} {t : Tree} {stubs ps : List (Path × Tree)} {relations : List Relation}
      {b : Backlog} {os : List Outcome} (accepted : Accepted p)
      (stubbed : g.Stubbed p alone r.created t stubs)
      (collected : Collected g.config p.name p.relations relations b)
      (drained : Backlog.Drained g.store b.byTarget os ps) (validation : r.validationErrors = [])
      (generation : r.generationErrors = [])
      (export_ : r.exportErrors = os.filterMap (·.complaint?)) :
      Account g p alone r ((g.store.pathFor p.name, t) :: stubs ++ ps)

end Generator

/-- The errors that a report lists. -/
def Report.errors (r : Report) : List Text × List Text × List Text :=
  (r.validationErrors, r.generationErrors, r.exportErrors)

/-! ## Steps of a run -/

namespace Generator

/-- What is done behind the lock of the entity. -/
def body (g : Generator) (p : Plan) : Task Run Unit := do
  let f ← g.load p
  let relations ← g.collect p f
  let f ← g.mutate p relations f
  g.save p f

variable {R : Rules} {g : Generator} {p : Plan} {s : Run} {h : Hand}

section

variable {alone : Bool} {shared : Place → Prop} (hdry : g.config.dryRun = false)

include hdry

/-- The file of the entity is put in place, and the stub behind it if the entity is new. -/
theorem follows_stored {f : ClassFile} (hguards : h.Guards R (g.store.pathFor p.name))
    (hfree : h.temporary = none)
    (hmay : h.MayPut R (g.store.pathFor p.name) (encode f.serialize))
    (hmissing : s.report.created = true → g.store.pathFor p.name ∈ h.missing)
    (hstub : R.stubs (g.store.pathFor p.name) (g.store.repositoryPathFor p.name)
      (encode (Render.repositoryStub g.config p.name))) :
    Follows R (do
      let _ ← stored (g.store.write p.name f.serialize)
      if (← get).report.created && g.config.generateRepository then
        let _ ← stored (g.store.writeRepository p.name (Render.repositoryStub g.config p.name)))
      s h fun r s' h' => h'.Guards R (g.store.pathFor p.name) ∧
        ∃ ps, s' = { s with written := s.written ++ ps.map (·.1) } ∧ h.Goes ps h' ∧
          match r with
          | .ok _ => ∃ t stubs, ps = (g.store.pathFor p.name, t) :: stubs ∧
            g.Stubbed p R.alone s.report.created t stubs
          | .error e => e.IsOs ∧ (ps = [] ∨ ∃ t, ps = [(g.store.pathFor p.name, t)] ∧
            (R.alone = true → g.Due p s.report.created t)) := by
  refine Follows.onPart_bind (Store.follows_save hdry hfree hmay) (fun path ws h₁ hmid => ?_)
    fun e ws h₁ hmid => ?_
  · obtain ⟨rfl, t, rfl⟩ := hmid
    have hgoes := Hand.goes_put h (g.store.pathFor p.name) (encode f.serialize) t
    refine Follows.get_bind ?_
    dsimp only
    split
    · rename_i hcreated
      rw [Bool.and_eq_true] at hcreated
      refine Follows.onPart_bind (Store.follows_writeRepository hdry rfl
        (hgoes.missing _ (hmissing hcreated.1)) hstub) (fun stub ws' h₂ hmid => ?_)
        fun e ws' h₂ hmid => ?_
      · obtain ⟨hguards₂, hmid⟩ := hmid
        cases stub with
        | none =>
          obtain ⟨rfl, hgoes₂, hfound⟩ := hmid
          exact Follows.pure ⟨hguards₂ _ (hguards.put _ t), _, rfl, hgoes.trans hgoes₂, t, [], rfl,
            .inl ⟨rfl, fun halone hdue => hdue.2.2 (hfound t halone rfl)⟩⟩
        | some path' =>
          obtain ⟨rfl, ⟨t', hgoes₂⟩, hunfound⟩ := hmid
          exact Follows.pure ⟨hguards₂ _ (hguards.put _ t), _, by simp, hgoes.trans hgoes₂, t, _,
            rfl, .inr ⟨t', rfl, hcreated.1, hcreated.2, fun halone =>
              ⟨hcreated.1, hcreated.2, hunfound t halone rfl⟩⟩⟩
      · obtain ⟨hguards₂, hos, rfl, hgoes₂, hunfound⟩ := hmid
        exact ⟨hguards₂ _ (hguards.put _ t), _, rfl, hgoes.trans hgoes₂, hos, .inr ⟨t, rfl,
          fun halone => ⟨hcreated.1, hcreated.2, hunfound t halone rfl⟩⟩⟩
    · rename_i hcreated
      rw [Bool.and_eq_true] at hcreated
      exact Follows.pure ⟨hguards.put _ t, _, rfl, hgoes, t, [], rfl, .inl ⟨rfl, fun _ hdue =>
        hcreated ⟨hdue.1, hdue.2.1⟩⟩⟩
  · obtain ⟨rfl, hos, hmoved⟩ := hmid
    exact ⟨hmoved.guards hguards, [], by simp, hmoved.goes hfree, hos, .inl rfl⟩

/-- **The entity is saved, and a stub of its repository if it is due**; or saving one of them fails
because of an error of the file system. -/
theorem follows_save {f : ClassFile} (hguards : h.Guards R (g.store.pathFor p.name))
    (hfree : h.temporary = none)
    (hmay : h.MayPut R (g.store.pathFor p.name) (encode f.serialize))
    (hmissing : s.report.created = true → g.store.pathFor p.name ∈ h.missing)
    (hstub : R.stubs (g.store.pathFor p.name) (g.store.repositoryPathFor p.name)
      (encode (Render.repositoryStub g.config p.name))) :
    Follows R (g.save p f) s h fun r s' h' => h'.Guards R (g.store.pathFor p.name) ∧
      ∃ report ps, s' = { s with report := report, written := s.written ++ ps.map (·.1) } ∧
        report.errors = s.report.errors ∧ report.created = s.report.created ∧ h.Goes ps h' ∧
        match r with
        | .ok _ => ∃ t stubs, ps = (g.store.pathFor p.name, t) :: stubs ∧
          g.Stubbed p R.alone s.report.created t stubs
        | .error e => report.phase = .save ∧ e.IsOs ∧ (ps = [] ∨
          ∃ t, ps = [(g.store.pathFor p.name, t)] ∧
            (R.alone = true → g.Due p s.report.created t)) := by
  have hfiles := follows_stored (s := { s with report := { s.report with phase := .save } }) hdry
    hguards hfree hmay hmissing hstub
  refine Follows.modify_bind ((Follows.timed hfiles).bind ?_ ?_)
  · rintro _ _ h' ⟨hguards', ps, rfl, hgoes, hstubbed⟩
    exact Follows.modify ⟨hguards', _, ps, rfl, rfl, rfl, hgoes, hstubbed⟩
  · rintro e _ h' ⟨hguards', ps, rfl, hgoes, hos, hps⟩
    exact ⟨hguards', _, ps, rfl, rfl, rfl, hgoes, rfl, hos, hps⟩

variable (haccepted : Accepted p)
  (hshared : shared (g.store.repositoryPathFor p.name).place)

include haccepted hshared

omit hdry haccepted hshared

include hdry haccepted hshared

omit hshared

omit haccepted hdry

include hdry

end

end Generator

end EntityScaffold.Generation
