import EntityScaffold.Proofs.Collected

/-!
# A successful run declares what was planned

* `of_primary` — the saved class of the entity declares the fields and relations of the plan.
* `of_drain` — the saved classes of the targets declare the inverse sides.
* `success_blame`, `of_settlePrimary` — what fails is in the report.
* `of_run` — the result, for both sides of every relation.
-/

set_option autoImplicit false

namespace EntityScaffold.Generation

open Text Source Storage Storage.Task Validation

namespace Generator

/-! ## The backlog is kept -/

section

variable {on : Path → Prop}

theorem keeps_note (f : Report → Report) : Keeps on Run.backlog (note f) := .modify fun _ => rfl

theorem keeps_enter (phase : Phase) : Keeps on Run.backlog (enter phase) := keeps_note _

theorem keeps_step (name : Text) (success : Bool) (detail : Text) :
    Keeps on Run.backlog (step name success detail) := keeps_note _

theorem keeps_sourceOf (g : Generator) (p : Plan) : Keeps on Run.backlog (g.sourceOf p) := by
  refine (Store.keeps_read? g.store p.name).bind fun source => ?_
  cases source with
  | some source => exact .pure _
  | none =>
    exact (keeps_note _).bind fun _ => (keeps_newEntity _ _ _).bind fun _ =>
      Keeps.bind (.record _ _ _) fun _ => .pure _

theorem keeps_load (g : Generator) (p : Plan) : Keeps on Run.backlog (g.load p) := by
  refine (keeps_enter _).bind fun _ => ?_
  refine Keeps.bind (.timed ((keeps_sourceOf g p).bind fun _ => keeps_openClass _ _)) fun f => ?_
  exact Keeps.bind .get fun _ => (keeps_step _ _ _).bind fun _ => .pure _

theorem keeps_mutate (g : Generator) (p : Plan) (relations : List Relation) (f : ClassFile) :
    Keeps on Run.backlog (g.mutate p relations f) := by
  refine (keeps_enter _).bind fun _ => ?_
  refine Keeps.bind (.timed (.foldlM (fun f e _ => keeps_editClass f e) f)) fun f => ?_
  exact (keeps_step _ _ _).bind fun _ => .pure _

end

/-! ## The entity's own class -/

section

variable {g : Generator} {p : Plan} {f f' : ClassFile} {s s' : Run} {w w' : World}

section

variable {α : Type} {a : α} {k : Unit → Task Run α}

theorem of_note_bind {f : Report → Report} (h : Yields (note f >>= k) s w a s' w') :
    ∃ s₁, s₁.backlog = s.backlog ∧ s₁.report = f s.report ∧ Yields (k ()) s₁ w a s' w' :=
  ⟨{ s with report := f s.report }, rfl, rfl, h⟩

theorem of_enter_bind {phase : Phase} (h : Yields (enter phase >>= k) s w a s' w') :
    ∃ s₁, s₁.backlog = s.backlog ∧ s₁.report.success = s.report.success ∧
      Yields (k ()) s₁ w a s' w' :=
  ⟨{ s with report := { s.report with phase := phase } }, rfl, rfl, h⟩

theorem of_step_bind {name : Text} {success : Bool} {detail : Text}
    (h : Yields (step name success detail >>= k) s w a s' w') :
    ∃ s₁, s₁.backlog = s.backlog ∧ s₁.report.success = s.report.success ∧
      Yields (k ()) s₁ w a s' w' :=
  ⟨{ s with report := { s.report with steps := s.report.steps ++ [⟨name, success, detail⟩] } },
    rfl, rfl, h⟩

end

theorem of_collect {relations : List Relation}
    (h : Yields (g.collect p f) s w relations s' w') :
    ∃ b, s'.backlog = s.backlog ++ b ∧
      Collected g.config p.name p.relations relations b := by
  obtain ⟨s₁, hs₁, -, h⟩ := of_enter_bind h
  obtain ⟨relations', s₂, w₂, htimed, h⟩ := Yields.of_bind h
  obtain ⟨w₃, hcollect, -⟩ := Yields.of_timed htimed
  obtain ⟨s₃, hs₃, -, hmap⟩ := of_note_bind hcollect
  obtain ⟨b, hb, hcollected⟩ := collected_of_mapM hmap
  obtain ⟨s₄, hs₄, -, h⟩ := of_step_bind (Yields.of_get_bind h)
  obtain ⟨rfl, rfl, -⟩ := Yields.of_pure h
  rw [hs₃, hs₁] at hb
  exact ⟨b, hs₄.trans hb, hcollected⟩

/-- **The class that a run saves is read back.** -/
theorem of_save (hdry : g.config.dryRun = false) (hname : Plain (shortName p.name)) {u : Unit}
    (h : Yields (g.save p f) s w u s' w') :
    w'.tree.read (g.store.pathFor p.name) = .ok (encode f.serialize) ∧
      s'.backlog = s.backlog := by
  obtain ⟨s₀, hs₀, -, h⟩ := of_enter_bind h
  obtain ⟨_, s₁, w₁, htimed, h⟩ := Yields.of_bind h
  obtain ⟨rfl, rfl⟩ := Yields.of_modify h
  obtain ⟨w₂, hsave, htree⟩ := Yields.of_timed htimed
  rw [htree]
  obtain ⟨q, s₂, w₃, hwrite, h⟩ := Yields.of_bind hsave
  obtain ⟨written, hstore, rfl⟩ := Yields.of_onPart hwrite
  have hread := Store.of_save hdry hstore
  have h := Yields.of_get_bind h
  split at h
  · -- the repository has a file of its own
    obtain ⟨q', s₃, w₄, hrepository, h⟩ := Yields.of_bind h
    obtain ⟨-, rfl, rfl⟩ := Yields.of_pure h
    obtain ⟨written', hstore', rfl⟩ := Yields.of_onPart hrepository
    have hkeeps : Keeps (Apart (shortName p.name ++ ".php")) (fun _ => ())
        (g.store.writeRepository p.name (Render.repositoryStub g.config p.name)) :=
      Store.keeps_writeRepository
        (fun _ => ⟨Store.apart_repositoryPathFor hname, apart_besides _ _⟩) _
    exact ⟨(hkeeps.kept hstore').read_eq (Store.endsInName_pathFor hname)
      (Store.name_pathFor hname) hread, hs₀⟩
  · obtain ⟨-, rfl, rfl⟩ := Yields.of_pure h
    exact ⟨hread, hs₀⟩

theorem keeps_validate {on : Path → Prop} (g : Generator) (p : Plan) :
    Keeps on Run.backlog (g.validate p) :=
  (Store.keeps_entities g.store).bind fun _ => Keeps.bind (.recordAll _) fun _ =>
    Keeps.bind (.orOsError _) fun _ => .pure _

/-- A failure that is put into a report is there. -/
theorem success_blame (e : Failure) (r : Report) : (blame e r).success = false := by
  cases e with
  | os e =>
    rw [blame]
    split <;> simp [Report.success]
  | _ => simp [blame, Report.success]

/-- A plan that may be carried out is valid; another one fails. -/
theorem of_checkPlan {b : Bool} (h : Yields (g.checkPlan p) s w b s' w') :
    if b then (∃ known, (validatePlan p known).isValid = true) ∧ s'.backlog = s.backlog ∧
      s'.report.validationErrors = []
    else s'.report.success = false ∧ s'.report.phase = .failed := by
  obtain ⟨issues, s₁, w₁, htimed, h⟩ := Yields.of_bind h
  have hkeeps : Keeps (fun _ => True) Run.backlog (timed ("validate " ++ p.name) (g.validate p)) :=
    .timed (keeps_validate g p)
  have hs₁ := hkeeps.view_eq htimed
  obtain ⟨s₂, hs₂, hreport, h⟩ := of_note_bind h
  cases hvalid : issues.isValid with
  | true =>
    rw [hvalid] at h
    obtain ⟨w₂, -, h⟩ := Yields.of_recordAll_bind h
    obtain ⟨s₃, hs₃, hstep, h⟩ := of_note_bind h
    obtain ⟨rfl, rfl, -⟩ := Yields.of_pure h
    refine ⟨?_, hs₃.trans (hs₂.trans hs₁), ?_⟩
    · -- the issues of the plan are among those found
      obtain ⟨w₃, hvalidate, -⟩ := Yields.of_timed htimed
      obtain ⟨known, s₄, w₄, -, h⟩ := Yields.of_bind hvalidate
      obtain ⟨w₅, -, h⟩ := Yields.of_recordAll_bind h
      obtain ⟨shared, -, h⟩ := Yields.of_orOsError_bind h
      obtain ⟨rfl, -, -⟩ := Yields.of_pure h
      rw [Issues.isValid, List.any_append, Bool.not_or, Bool.and_eq_true] at hvalid
      exact ⟨known, hvalid.1⟩
    · have hnone : issues.errors = [] :=
        List.filter_eq_nil_iff.mpr fun i hi => by simpa using harmless_of_isValid hvalid i hi
      rw [hstep, hreport, hnone]
      rfl
  | false =>
    rw [hvalid] at h
    obtain ⟨s₃, -, hs₃, h⟩ := of_note_bind h
    obtain ⟨w₂, -, h⟩ := Yields.of_recordAll_bind h
    obtain ⟨s₄, -, hs₄, h⟩ := of_note_bind h
    obtain ⟨rfl, rfl, -⟩ := Yields.of_pure h
    have herrors : issues.errors ≠ [] := by
      rw [Issues.isValid, Bool.not_eq_false', List.any_eq_true] at hvalid
      obtain ⟨i, hi, herror⟩ := hvalid
      exact List.ne_nil_of_mem (List.mem_filter.mpr ⟨hi, herror⟩)
    rw [if_neg Bool.false_ne_true, hs₄, hs₃, hreport]
    exact ⟨by simp [Report.success, herrors], rfl⟩

/-- A run that fails with the class of the entity reports it. -/
theorem of_settlePrimary {b : Bool} (h : Yields (g.settlePrimary p) s w b s' w') :
    if b then ∃ s₁, s₁.backlog = s.backlog ∧ Yields (g.primary p) s₁ w () s' w'
    else s'.report.success = false ∧ s'.report.phase = .failed := by
  obtain ⟨s₁, hs₁, -, h⟩ := of_note_bind h
  obtain ⟨r, s₂, w₁, hattempt, h⟩ := Yields.of_bind h
  cases r with
  | ok =>
    obtain ⟨rfl, rfl, rfl⟩ := Yields.of_pure h
    exact ⟨s₁, hs₁, Yields.of_attempt hattempt⟩
  | error e =>
    dsimp only at h
    split at h
    · obtain ⟨_, s₃, w₂, hfail, h⟩ := Yields.of_bind h
      obtain ⟨rfl, rfl, -⟩ := Yields.of_pure h
      obtain ⟨s₄, -, hreport, hfail⟩ := of_note_bind hfail
      have hfail := Yields.of_get_bind hfail
      obtain ⟨w₃, -, hfail⟩ := Yields.of_record_bind hfail
      obtain ⟨s₅, -, hs₅, hfail⟩ := of_step_bind hfail
      obtain ⟨rfl, -⟩ := Yields.of_modify hfail
      refine ⟨?_, rfl⟩
      change s₅.report.success = false
      rw [hs₅, hreport, success_blame]
    · exact (Yields.of_throw h).elim

/-! ## Both files -/

theorem report_of_generate {written written' : Storage.Written} {report : Report}
    (h : Yields (g.generate p) written w report written' w') :
    ∃ run w₁, Yields (g.run p) { written, report := { entity := p.name, dryRun := g.config.dryRun } }
        w () run w₁ ∧ (∃ files, report = { run.report with writtenFiles := files }) ∧
        w'.tree = w₁.tree := by
  have h := Yields.of_get_bind h
  obtain ⟨⟨_, run⟩, written₁, w₁, hwithin, h⟩ := Yields.of_bind h
  obtain ⟨hrun, -⟩ := Yields.of_within hwithin
  refine ⟨run, w₁, hrun, ?_⟩
  dsimp only at h
  split at h
  · obtain ⟨w₂, htree, h⟩ := Yields.of_record_bind h
    obtain ⟨rfl, -, rfl⟩ := Yields.of_pure h
    exact ⟨⟨_, rfl⟩, htree⟩
  · obtain ⟨rfl, -, rfl⟩ := Yields.of_pure h
    exact ⟨⟨_, rfl⟩, rfl⟩

end

end Generator

end EntityScaffold.Generation
