import EntityScaffold.Proofs.Accepted
import EntityScaffold.Proofs.OwnSides
import EntityScaffold.Proofs.RunFailures

/-!
# What runs report

A run that brings its plan into the entity's file works off its backlog and has an outcome for each
target; a run that does not get that far has none.  No failure leaves a run, except that of a name
that no file can have and that of a file that cannot be decoded.

* `Outlets` — the failures that leave a run.
* `Generator.reported_of_generate` — a report, and the inverse sides that the plan calls for.
* `Generator.reports_of_generateAll` — one report for each plan.
* `Generator.refusals_of_generate` — a name is refused before any file is touched, unless it is that
  of a property which the other side of a relation gets.
-/

set_option autoImplicit false

namespace EntityScaffold

open Text Source Storage Storage.Task

namespace Storage.Task

variable {σ α β : Type} {s s' : σ} {w w' : World}

/-- Each of the tasks performed one after another has yielded its result. -/
theorem Yields.forall₂_of_mapM {xs : List α} {f : α → Task σ β} {ys : List β}
    (h : Yields (xs.mapM f) s w ys s' w') :
    List.Forall₂ (fun x y => ∃ s w s' w', Yields (f x) s w y s' w') xs ys := by
  induction xs generalizing s w ys with
  | nil =>
    obtain ⟨rfl, -, -⟩ := Yields.of_pure h
    exact .nil
  | cons x xs ih =>
    rw [List.mapM_cons] at h
    obtain ⟨y, s₁, w₁, hfirst, h⟩ := Yields.of_bind h
    obtain ⟨ys', s₂, w₂, hrest, h⟩ := Yields.of_bind h
    obtain ⟨rfl, rfl, rfl⟩ := Yields.of_pure h
    exact .cons ⟨s, w, s₁, w₁, hfirst⟩ (ih hrest)

end Storage.Task

/-! ## Failures that are not contained -/

/-- From a tree in `inv`, `out` are the failures that are not put down to the piece of work that
they arise in. -/
structure Outlets (inv : Tree → Prop) (out : Failure → Prop) : Prop where
  usual : Usual inv fun e => e.isContained = true ∨ out e
  name : ∀ e, Unnameable e → out e

/-- An error of the file system is contained, or a name is one that no file can have. -/
theorem isContained_or_unnameable (e : OsError) :
    (Failure.os e).isContained = true ∨ Unnameable (.os e) := by
  by_cases he : e.cause = .nulInPath
  · exact .inr ⟨e, rfl, .inl he⟩
  · exact .inl (decide_eq_true he)

/-- Where all files can be decoded these are the names that no file can have. -/
theorem outlets_allText : Outlets AllText Unnameable where
  usual := {
    stable _ hop w hw := AllText.stable hop w hw
    os := isContained_or_unnameable
    locked _ _ := .inl rfl
    undecodable t p bytes e ht hread hdecode := by
      have hok := ht.read hread
      rw [hdecode] at hok
      cases hok }
  name _ := id

/-- Elsewhere a file that cannot be decoded is one more. -/
theorem outlets_undecodable :
    Outlets (fun _ => True) fun e => Unnameable e ∨ ∃ d, e = .undecodable d where
  usual := {
    stable _ _ _ _ := trivial
    os e := (isContained_or_unnameable e).imp_right .inl
    locked _ _ := .inl rfl
    undecodable _ _ _ e _ _ _ := .inr (.inr ⟨e, rfl⟩) }
  name _ := .inl

namespace Backlog

section

variable {store : Store} {b : Backlog} {inv : Tree → Prop} {out : Failure → Prop}

/-- **No failure but these leaves the work on a target.** -/
theorem confined_drainTarget (h : Outlets inv out) (work : Text × List InverseSide) :
    Confined inv out (fun _ => ()) (drainTarget store work) := by
  obtain ⟨target, sides⟩ := work
  have hpatch : Confined inv (fun e => e.isContained = true ∨ out e) (fun _ => ())
      (patch store target sides) :=
    (confined_patch h.usual (fun _ => .inl rfl) fun side _ =>
      Edit.contained_addRelation.imp fun _ => .inl).imp (fun _ => ()) fun _ he => he
  have hsettle : Confined inv out (fun _ => ()) (settleTarget store target sides) := by
    refine hpatch.attempt_bind (fun _ _ _ _ _ _ => .pure _) fun e he => ?_
    dsimp only
    split
    · exact Confined.bind (.modify fun _ => rfl) fun _ => .record _ _ _
    · exact .throw (he.resolve_left ‹_›)
  exact Confined.bind (hsettle.timed.within fun _ _ _ => rfl) fun _ => .pure _

theorem confined_workOff (h : Outlets inv out) :
    Confined inv out (fun _ => ()) (workOff store) := by
  have hdrain : ∀ b, Confined inv out (fun _ => ()) (drain store b) := fun b =>
    Confined.bind (.mapM fun work _ => confined_drainTarget h work) fun _ =>
      Confined.bind (.record _ _ _) fun _ => .pure _
  exact Confined.bind .get fun p => Confined.bind (.modify fun _ => rfl) fun _ =>
    (hdrain p.backlog).onPart fun _ _ _ => rfl

/-- A failure in an outcome is one of the work on its target. -/
theorem failure_of_drainTarget {target : Text} {sides : List InverseSide} {ok : Failure → Prop}
    (hpatch : Confined (fun _ => True) ok (fun p : Patch => p.outcome.failure)
      (patch store target sides)) {ws ws' : Storage.Written} {w w' : World} {o : Outcome}
    (h : Yields (drainTarget store (target, sides)) ws w o ws' w') {e : Failure}
    (he : o.failure = some e) : ok e := by
  obtain ⟨⟨u, patched⟩, ws₁, w₁, hwithin, h⟩ := Yields.of_bind h
  obtain ⟨rfl, -, -⟩ := Yields.of_pure h
  obtain ⟨htimed, -⟩ := Yields.of_within hwithin
  obtain ⟨w₂, hsettle, -⟩ := Yields.of_timed htimed
  obtain ⟨r, p, w₃, hattempt, h⟩ := Yields.of_bind hsettle
  obtain ⟨-, hview, herror⟩ := hpatch ⟨ws, { target := target }⟩ w trivial
  rw [Yields.of_attempt hattempt] at hview herror
  cases r with
  | ok =>
    obtain ⟨-, rfl, -⟩ := Yields.of_pure h
    rw [show patched.outcome.failure = none from hview] at he
    cases he
  | error x =>
    dsimp only at h
    split at h
    · obtain ⟨rfl, -⟩ := Yields.of_record (Yields.of_modify_bind h)
      cases he
      exact herror _ rfl
    · exact (Yields.of_throw h).elim

/-- The outcomes of a backlog, each with the work it is of. -/
def Settled (store : Store) (b : Backlog) (outcomes : List Outcome) : Prop :=
  List.Forall₂ (fun work o => ∃ ws w ws' w', Yields (drainTarget store work) ws w o ws' w')
    b.byTarget outcomes

theorem settled_of_drain {ws ws' : Storage.Written} {w w' : World} {outcomes : List Outcome}
    (h : Yields (drain store b) ws w outcomes ws' w') : Settled store b outcomes := by
  obtain ⟨outcomes', ws₁, w₁, hmap, h⟩ := Yields.of_bind h
  obtain ⟨w₂, -, h⟩ := Yields.of_record_bind h
  obtain ⟨rfl, -, -⟩ := Yields.of_pure h
  exact Yields.forall₂_of_mapM hmap

theorem Settled.of_mem {outcomes : List Outcome} (h : Settled store b outcomes) {o : Outcome}
    (ho : o ∈ outcomes) :
    ∃ work ∈ b.byTarget, ∃ ws w ws' w', Yields (drainTarget store work) ws w o ws' w' := by
  rw [Settled] at h
  generalize b.byTarget = works at h ⊢
  induction h with
  | nil => cases ho
  | cons hyields _ ih =>
    rcases List.mem_cons.mp ho with rfl | ho
    · exact ⟨_, List.mem_cons_self, hyields⟩
    · obtain ⟨work, hwork, hrest⟩ := ih ho
      exact ⟨work, List.mem_cons_of_mem _ hwork, hrest⟩

/-- **Each target has its outcome.** -/
theorem Settled.targets_eq {outcomes : List Outcome} (h : Settled store b outcomes) :
    outcomes.map (·.target) = b.targets := by
  have hsame : List.Forall₂ (fun work o => work.1 = o.target) b.byTarget outcomes :=
    h.imp fun ⟨target, sides⟩ o ⟨_, _, _, _, hyields⟩ =>
      (properties_of_drainTarget hyields).1.symm
  have hmap := List.forall₂_map_right_iff.mpr (List.forall₂_map_left_iff.mpr hsame)
  rw [List.forall₂_eq_eq_eq] at hmap
  rw [← hmap, byTarget, List.map_map]
  exact List.map_id' _

end

end Backlog

namespace Generation

open Validation

namespace Generator

section

variable {inv : Tree → Prop} {out : Failure → Prop} {g : Generator} {p : Plan} {s s' : Run}
  {w w' : World}

/-! ## Plans that are refused -/

/-- **Validation touches no file**, and fails only where a directory has a name that none can
have. -/
theorem confined_validate {σ ρ : Type} {view : σ → ρ} {t : Tree} :
    Confined (· = t) Unnameable view (g.validate p : Task σ Issues) := by
  refine (Store.confined_entities g.store).bind fun known => Confined.bind (.recordAll _) fun _ => ?_
  refine Confined.bind (.orOsError fun e he => ?_) fun _ => .pure _
  rw [sharedDirectory] at he
  split at he
  · cases he
    exact ⟨_, rfl, .inl rfl⟩
  · cases he

theorem confined_checkPlan (t : Tree) : Confined (· = t) Unnameable
    (fun run => (run.report.entity, run.report.outcomes)) (g.checkPlan p) := by
  refine Confined.bind (.timed confined_validate) fun issues =>
    Confined.bind (.modify fun _ => rfl) fun _ => ?_
  split
  · exact Confined.bind (.recordAll _) fun _ => Confined.bind (.modify fun _ => rfl) fun _ => .pure _
  · exact Confined.bind (.modify fun _ => rfl) fun _ => Confined.bind (.recordAll _) fun _ =>
      Confined.bind (.modify fun _ => rfl) fun _ => .pure _

/-! ## The entity's own class -/

/-- A failure is put among the errors, those of validation if it is that of a name. -/
theorem of_blame (e : Failure) (r : Report) : (blame e r).entity = r.entity ∧
    (blame e r).outcomes = r.outcomes ∧
      ((∀ x, e ≠ .refused x) → (blame e r).validationErrors = r.validationErrors) := by
  cases e with
  | refused x => exact ⟨rfl, rfl, fun h => absurd rfl (h x)⟩
  | os x =>
    rw [blame]
    split <;> exact ⟨rfl, rfl, fun _ => rfl⟩
  | _ => exact ⟨rfl, rfl, fun _ => rfl⟩

/-- A failure of the plan itself is put into the report, unless it is not contained. -/
theorem confined_settlePrimary {ρ : Type} {ok out : Failure → Prop} {view : Run → ρ}
    (hview : Discreet view)
    (hblame : ∀ e, ok e → ∀ run : Run, view { run with report := blame e run.report } = view run)
    (hout : ∀ e, ok e → e.isContained = false → out e) (h : Confined inv ok view (g.primary p)) :
    Confined inv out view (g.settlePrimary p) := by
  refine Confined.bind ?_ fun _ => h.attempt_bind (fun _ _ _ _ _ _ => .pure _) fun e he => ?_
  · exact confined_note hview fun _ => ⟨rfl, rfl, rfl⟩
  dsimp only
  split
  · refine Confined.bind ?_ fun _ => .pure _
    exact Confined.bind (.modify (hblame e he)) fun _ => Confined.bind .get fun _ =>
      Confined.bind (.record _ _ _) fun _ => (confined_step hview _ _ _).bind fun _ =>
        confined_enter hview _
  · rename_i hnot
    exact .throw (hout e he (Bool.eq_false_iff.mpr hnot))

/-- Bringing the plan into the entity's file has no outcomes, whatever becomes of it. -/
theorem outcomes_of_settlePrimary {b : Bool} (h : Yields (g.settlePrimary p) s w b s' w') :
    s'.report.entity = s.report.entity ∧ s'.report.outcomes = s.report.outcomes := by
  have husual : Usual (fun _ => True) (fun _ => True) :=
    ⟨fun _ _ _ _ => trivial, fun _ => trivial, fun _ _ => trivial, fun _ _ _ _ _ _ _ => trivial⟩
  have hadmits : Admits (fun _ => True) g.config p :=
    ⟨fun _ _ _ _ => trivial, fun _ _ _ _ _ _ => trivial, fun _ _ _ _ _ => trivial,
      fun _ _ _ _ _ _ _ => trivial⟩
  have hview : Discreet fun run => (run.report.entity, run.report.outcomes) :=
    ⟨fun _ _ hentity houtcomes _ => Prod.ext hentity houtcomes⟩
  have hsettle := confined_settlePrimary hview
    (fun e _ run => Prod.ext (of_blame e run.report).1 (of_blame e run.report).2.1)
    (fun _ _ _ => trivial) (confined_primary hview hadmits husual fun _ => trivial)
  exact Prod.mk.inj (hsettle.of_yields trivial h).2

/-- The backlog of a plan that has been brought into the entity's file. -/
theorem collected_of_primary {u : Unit} (hbacklog : s.backlog = [])
    (h : Yields (g.primary p) s w u s' w') :
    ∃ relations, Collected g.config p.name p.relations relations s'.backlog := by
  have hsave : ∀ f, Keeps (fun _ => True) Run.backlog (g.save p f) := by
    intro f
    refine (keeps_enter _).bind fun _ => Keeps.bind (.timed ?_) fun _ => keeps_step _ _ _
    have hwrite : Keeps (fun _ => True) (fun _ => ()) (g.store.write p.name f.serialize) :=
      Store.keeps_save (fun _ => ⟨trivial, fun _ => trivial⟩) _
    refine Keeps.bind (.onPart (by intros; rfl) hwrite) fun _ => Keeps.bind .get fun run => ?_
    split
    · exact Keeps.bind (.onPart (by intros; rfl)
        (Store.keeps_writeRepository (fun _ => ⟨trivial, fun _ => trivial⟩) _)) fun _ => .pure _
    · exact .pure _
  obtain ⟨w₁, w₂, h, -⟩ := Store.of_withLock h
  obtain ⟨f, s₁, w₃, hload, h⟩ := Yields.of_bind h
  obtain ⟨relations, s₂, w₄, hcollect, h⟩ := Yields.of_bind h
  obtain ⟨f', s₃, w₅, hmutate, h⟩ := Yields.of_bind h
  have hloaded : Keeps (fun _ => True) Run.backlog (g.load p) := keeps_load g p
  have hmutated : Keeps (fun _ => True) Run.backlog (g.mutate p relations f) :=
    keeps_mutate g p relations f
  obtain ⟨b, hb, hcollected⟩ := of_collect hcollect
  refine ⟨relations, ?_⟩
  rw [(hsave f').view_eq h, hmutated.view_eq hmutate, hb, hloaded.view_eq hload, hbacklog]
  exact hcollected

/-! ## The other side -/

/-- **A run that gets that far works off its backlog.** -/
theorem settled_of_drain {u : Unit} (h : Yields g.drain s w u s' w') :
    s'.report.phase = .done ∧ s'.report.entity = s.report.entity ∧
      s'.report.validationErrors = s.report.validationErrors ∧
      ∃ outcomes, s'.report.outcomes = s.report.outcomes ++ outcomes ∧
        Backlog.Settled g.store s.backlog outcomes := by
  obtain ⟨s₁, hs₁, hreport, h⟩ := of_note_bind h
  have hentity : s₁.report.entity = s.report.entity := by rw [hreport]
  have herrors : s₁.report.validationErrors = s.report.validationErrors := by rw [hreport]
  have houtcomes : s₁.report.outcomes = s.report.outcomes := by rw [hreport]
  have h := Yields.of_get_bind h
  dsimp only at h
  rw [← hs₁, ← hentity, ← herrors, ← houtcomes]
  cases hempty : s₁.backlog.isEmpty with
  | true =>
    rw [hempty] at h
    obtain ⟨rfl, -⟩ := Yields.of_modify h
    rw [List.isEmpty_iff.mp hempty]
    exact ⟨rfl, rfl, rfl, [], (List.append_nil _).symm, .nil⟩
  | false =>
    rw [hempty] at h
    obtain ⟨outcomes, s₂, w₁, htimed, h⟩ := Yields.of_bind h
    obtain ⟨w₂, hstored, -⟩ := Yields.of_timed htimed
    obtain ⟨after, hworkOff, rfl⟩ := Yields.of_onPart hstored
    obtain ⟨written, hdrain, -⟩ := Backlog.of_workOff hworkOff
    obtain ⟨s₃, -, hs₃, h⟩ := of_note_bind h
    obtain ⟨s₄, -, hs₄, h⟩ := of_note_bind h
    obtain ⟨rfl, -⟩ := Yields.of_modify h
    refine ⟨rfl, ?_, ?_, outcomes, ?_, Backlog.settled_of_drain hdrain⟩
    · change s₄.report.entity = _
      rw [hs₄, hs₃]
    · change s₄.report.validationErrors = _
      rw [hs₄, hs₃]
    · change s₄.report.outcomes = _
      rw [hs₄, hs₃]

/-! ## Whole runs -/

/-- What a report tells of the inverse sides that a plan calls for: each target has its outcome if
the plan has been brought into the entity's file, and none has one if it has not. -/
structure Tells (g : Generator) (p : Plan) (r : Report) : Prop where
  entity : r.entity = p.name
  outcomes : (r.phase = .done ∧ ∃ relations b, Collected g.config p.name p.relations relations b ∧
    r.outcomes.map (·.target) = b.targets) ∨ r.phase = .failed ∧ r.outcomes = []

theorem tells_of_run {u : Unit} (hname : s.report.entity = p.name) (hbacklog : s.backlog = [])
    (hnone : s.report.outcomes = []) (h : Yields (g.run p) s w u s' w') : g.Tells p s'.report := by
  obtain ⟨checked, s₁, w₁, hcheck, h⟩ := Yields.of_bind h
  obtain ⟨hentity, houtcomes⟩ := Prod.mk.inj ((confined_checkPlan w.tree).of_yields rfl hcheck).2
  cases checked with
  | false =>
    obtain ⟨-, rfl, -⟩ := Yields.of_pure h
    exact ⟨hentity.trans hname, .inr ⟨(of_checkPlan hcheck).2, houtcomes.trans hnone⟩⟩
  | true =>
    obtain ⟨-, hs₁, -⟩ := of_checkPlan hcheck
    obtain ⟨settled, s₂, w₂, hsettle, h⟩ := Yields.of_bind h
    obtain ⟨hentity', houtcomes'⟩ := outcomes_of_settlePrimary hsettle
    rw [hentity, hname] at hentity'
    rw [houtcomes, hnone] at houtcomes'
    cases settled with
    | false =>
      obtain ⟨-, rfl, -⟩ := Yields.of_pure h
      exact ⟨hentity', .inr ⟨(of_settlePrimary hsettle).2, houtcomes'⟩⟩
    | true =>
      obtain ⟨s₃, hs₃, hprimary⟩ := of_settlePrimary hsettle
      obtain ⟨relations, hcollected⟩ := collected_of_primary (hs₃.trans (hs₁.trans hbacklog)) hprimary
      obtain ⟨hphase, hlast, -, outcomes, hall, hsettled⟩ := settled_of_drain h
      rw [houtcomes', List.nil_append] at hall
      exact ⟨hlast.trans hentity', .inl ⟨hphase, relations, _, hcollected,
        hall ▸ hsettled.targets_eq⟩⟩

/-- **A report tells of all inverse sides that its plan calls for**, or the plan has not been
brought into the entity's file. -/
theorem reported_of_generate {written written' : Storage.Written} {report : Report}
    (h : Yields (g.generate p) written w report written' w') : g.Tells p report := by
  obtain ⟨run, w₁, hrun, ⟨files, rfl⟩, -⟩ := report_of_generate h
  obtain ⟨hentity, houtcomes⟩ := tells_of_run rfl rfl rfl hrun
  exact ⟨hentity, houtcomes⟩

/-! ## Runs that come to an end -/

/-- An accepted plan fails with what is contained. -/
theorem admits_contained (h : Accepted p) (c : Config) :
    Admits (fun e => e.isContained = true ∨ out e) c p where
  resolve r hr e he := by
    obtain ⟨t, ht⟩ := h.resolves hr
    rw [ht] at he
    cases he
  inverse r hr t ht e he := by
    obtain ⟨rfl, -⟩ := h.of_inverseSide hr (resolved_of_resolve ht) he
    exact .inl rfl
  field _ _ := Edit.contained_addField.imp fun _ => .inl
  relation _ _ _ _ := Edit.contained_addRelation.imp fun _ => .inl

/-- **No failure but these leaves a run**, whatever its plan is. -/
theorem confined_run (h : Outlets inv out) : Confined inv out (fun _ => ()) (g.run p) := by
  have hview : Discreet fun _ => () := ⟨fun _ _ _ _ _ => rfl⟩
  have hcheck : Confined inv out (fun _ => ()) (g.checkPlan p) :=
    .of_same fun t _ => (confined_checkPlan t).imp (fun _ => ()) h.name
  have hdrain : Confined inv out (fun _ => ()) g.drain := by
    refine Confined.bind (.modify fun _ => rfl) fun _ => Confined.bind .get fun run => ?_
    dsimp only
    split
    · have hqueued : Confined inv out (fun _ => ()) (queued (Backlog.workOff g.store)) :=
        (Backlog.confined_workOff h).onPart fun _ _ _ => rfl
      exact hqueued.timed.bind fun _ => Confined.bind (.modify fun _ => rfl) fun _ =>
        Confined.bind (.modify fun _ => rfl) fun _ => .modify fun _ => rfl
    · exact .modify fun _ => rfl
  refine hcheck.bind_of_yields fun checked s w s' w' _ hyields => ?_
  cases checked with
  | false => exact .pure _
  | true =>
    obtain ⟨⟨known, hvalid⟩, -⟩ := of_checkPlan hyields
    have hprimary := confined_primary hview
      (admits_contained (accepted_of_isValid hvalid) g.config) h.usual fun _ => .inl rfl
    refine (confined_settlePrimary hview (fun _ _ _ => rfl)
      (fun e he hnot => he.resolve_left (by simp [hnot])) hprimary).bind fun settled => ?_
    cases settled with
    | false => exact .pure _
    | true => exact hdrain

theorem confined_generate (h : Outlets inv out) :
    Confined inv out (fun _ => ()) (g.generate p) := by
  refine Confined.bind .get fun before => ?_
  refine Confined.bind ((confined_run h).within fun _ _ _ => rfl) fun ((), run) => ?_
  dsimp only
  split
  · exact Confined.bind (.record _ _ _) fun _ => .pure _
  · exact .pure _

/-- **Plans are carried out one after another**: if all files can be decoded each plan has its
report, in the order of the plans, and nothing but a path that no file can have puts an end to
this. -/
theorem reports_of_generateAll (g : Generator) (ps : List Plan) (ws : Storage.Written) {w : World}
    (hw : AllText w.tree) :
    (∃ reports ws' w', Yields (g.generateAll ps) ws w reports ws' w' ∧
      List.Forall₂ g.Tells ps reports) ∨
    ∃ e, (((g.generateAll ps).program ws).run w).1.1 = .error e ∧ Unnameable e := by
  have hall : Confined AllText Unnameable (fun _ => ()) (g.generateAll ps) :=
    .mapM fun _ _ => confined_generate outlets_allText
  obtain ⟨-, -, herror⟩ := hall ws w hw
  rcases hrun : ((g.generateAll ps).program ws).run w with ⟨⟨e | reports, ws'⟩, w'⟩
  · exact .inr ⟨e, rfl, herror e (congrArg (·.1.1) hrun)⟩
  · have hyields : Yields (g.generateAll ps) ws w reports ws' w' := hrun
    refine .inl ⟨reports, ws', w', hyields, (Yields.forall₂_of_mapM hyields).imp fun p r h => ?_⟩
    obtain ⟨_, _, _, _, hreport⟩ := h
    exact reported_of_generate hreport

/-! ## Names that are refused -/

/-- The names of an accepted plan are not refused, if those that the other sides of relations get
are accepted. -/
theorem admits_unrefused (h : Accepted p) (c : Config)
    (hother : ∀ r ∈ p.relations, r.wantsInverse = true →
      isIdentifier (otherOrSuggested p r) = true) :
    Admits (fun e => ∀ x, e ≠ .refused x) c p where
  resolve r hr e he := by
    obtain ⟨t, ht⟩ := h.resolves hr
    rw [ht] at he
    cases he
  inverse r hr t ht e he := by
    obtain ⟨-, hwants, hnil⟩ := h.of_inverseSide hr (resolved_of_resolve ht) he
    exact absurd hnil (ne_nil_of_isIdentifier (hother r hr hwants))
  field f hf := by
    refine Edit.failsWith_addField (fun _ _ => nofun) fun hrefused => ?_
    rw [h.fields f hf] at hrefused
    cases hrefused
  relation r hr t ht := h.failsWith_edit hr (resolved_of_resolve ht) _

/-- The tasks of the store refuse no name. -/
theorem usual_unrefused : Usual (fun _ => True) fun e => ∀ x, e ≠ .refused x :=
  ⟨fun _ _ _ _ => trivial, fun _ _ => nofun, fun _ _ _ => nofun, fun _ _ _ _ _ _ _ _ => nofun⟩

/-- Nor are the names in the inverse sides refused. -/
theorem unrefused_of_settled (h : Accepted p)
    (hother : ∀ r ∈ p.relations, r.wantsInverse = true → isIdentifier (otherOrSuggested p r) = true)
    {relations : List Relation} {b : Backlog} {outcomes : List Outcome}
    (hcollected : Collected g.config p.name p.relations relations b)
    (hsettled : Backlog.Settled g.store b outcomes) :
    ∀ o ∈ outcomes, ∀ x, o.failure ≠ some (.refused x) := by
  intro o ho x hx
  obtain ⟨⟨target, sides⟩, hwork, _, _, _, _, hyields⟩ := hsettled.of_mem ho
  have hsides : ∀ side ∈ sides, (Backlog.edit g.store.config.indent side).FailsWith
      fun e => ∀ x, e ≠ .refused x := by
    intro side hside
    have hmem : side ∈ b.filter (·.entity = target) := (Backlog.of_mem_byTarget hwork).1 ▸ hside
    -- the side comes from a relation of the plan
    obtain ⟨r, hr, t, hresolve, hinverse⟩ := hcollected.of_mem_backlog (List.mem_filter.mp hmem).1
    have hresolved := resolved_of_resolve hresolve
    have hfor := isFor_of_inverseSide hinverse
    exact h.failsWith_inverse hresolved hfor
      (hother r hr (hresolved.wantsInverse ▸ hfor.wanted)) _
  have hpatch : Confined (fun _ => True) (fun e => ∀ x, e ≠ .refused x)
      (fun patch : Backlog.Patch => patch.outcome.failure) (Backlog.patch g.store target sides) :=
    Backlog.confined_patch usual_unrefused (fun _ _ => nofun) hsides
  exact Backlog.failure_of_drainTarget hpatch hyields hx x rfl

theorem refusals_of_run {u : Unit} (hother : ∀ r ∈ p.relations, r.wantsInverse = true →
      isIdentifier (otherOrSuggested p r) = true)
    (hbacklog : s.backlog = []) (hnone : s.report.outcomes = [])
    (h : Yields (g.run p) s w u s' w') :
    (w'.tree = w.tree ∧ s'.report.outcomes = []) ∨ s'.report.validationErrors = [] ∧
      ∀ o ∈ s'.report.outcomes, ∀ x, o.failure ≠ some (.refused x) := by
  obtain ⟨checked, s₁, w₁, hcheck, h⟩ := Yields.of_bind h
  obtain ⟨htree, hview⟩ := (confined_checkPlan w.tree).of_yields rfl hcheck
  have houtcomes : s₁.report.outcomes = [] := (congrArg Prod.snd hview).trans hnone
  cases checked with
  | false =>
    obtain ⟨-, rfl, rfl⟩ := Yields.of_pure h
    exact .inl ⟨htree, houtcomes⟩
  | true =>
    obtain ⟨⟨known, hvalid⟩, hs₁, herrors⟩ := of_checkPlan hcheck
    have haccepted := accepted_of_isValid hvalid
    obtain ⟨settled, s₂, w₂, hsettle, h⟩ := Yields.of_bind h
    have hview : Discreet fun run => (run.report.outcomes, run.report.validationErrors) :=
      ⟨fun _ _ _ houtcomes herrors => Prod.ext houtcomes herrors⟩
    have hadmits := admits_unrefused haccepted g.config hother
    have hconfined := confined_settlePrimary hview
      (fun e he run => Prod.ext (of_blame e run.report).2.1 ((of_blame e run.report).2.2 he))
      (fun _ _ _ => True.intro) (confined_primary hview hadmits usual_unrefused fun _ _ => nofun)
    obtain ⟨houtcomes', herrors'⟩ := Prod.mk.inj (hconfined.of_yields trivial hsettle).2
    rw [houtcomes] at houtcomes'
    rw [herrors] at herrors'
    cases settled with
    | false =>
      obtain ⟨-, rfl, rfl⟩ := Yields.of_pure h
      exact .inr ⟨herrors', houtcomes' ▸ fun _ ho => nomatch ho⟩
    | true =>
      obtain ⟨s₃, hs₃, hprimary⟩ := of_settlePrimary hsettle
      obtain ⟨relations, hcollected⟩ := collected_of_primary (hs₃.trans (hs₁.trans hbacklog)) hprimary
      obtain ⟨-, -, hlast, outcomes, hall, hsettled⟩ := settled_of_drain h
      rw [houtcomes', List.nil_append] at hall
      exact .inr ⟨hlast.trans herrors',
        hall ▸ unrefused_of_settled haccepted hother hcollected hsettled⟩

/-- **A name is refused before any file is touched**, if those that the other sides of relations get
are accepted. -/
theorem refusals_of_generate {written written' : Storage.Written} {report : Report}
    (hother : ∀ r ∈ p.relations, r.wantsInverse = true → isIdentifier (otherOrSuggested p r) = true)
    (h : Yields (g.generate p) written w report written' w') :
    (w'.tree = w.tree ∧ report.outcomes = []) ∨ report.validationErrors = [] ∧
      ∀ o ∈ report.outcomes, ∀ x, o.failure ≠ some (.refused x) := by
  obtain ⟨run, w₁, hrun, ⟨files, rfl⟩, htree⟩ := report_of_generate h
  rw [htree]
  exact refusals_of_run hother rfl rfl hrun

/-- The plural of a name may be a word that is no name for a property. -/
example :
    let p : Plan := { name := "Extend", relations :=
      [{ kind := .manyToOne, property := some "post", target := "Post", wantsInverse := true }] }
    (validatePlan p none).isValid = true ∧
      ∀ r ∈ p.relations, isIdentifier (otherOrSuggested p r) = false := by decide +kernel

end

end Generator

end Generation

end EntityScaffold
