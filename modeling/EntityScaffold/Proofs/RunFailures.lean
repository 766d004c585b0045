import EntityScaffold.Proofs.EditFailures
import EntityScaffold.Proofs.Generation
import EntityScaffold.Proofs.Storage.Confined

/-!
# How runs fail

The failures of a run are those of the file system and of its edits.  What a failure leaves of the
report depends on where it arises: bringing the plan into the entity's file says nothing of the
inverse sides, and writing these says nothing of the plan.

* `Backlog.confined_patch` — work on a target.
* `Generator.confined_primary` — bringing the plan into the entity's file.
-/

set_option autoImplicit false

namespace EntityScaffold

open Text Source Storage Storage.Task

section

variable {σ ρ : Type} {inv : Tree → Prop} {ok : Failure → Prop} {view : σ → ρ}

theorem confined_newEntity (c : Config) (name : Text) (ns : Option Text) :
    Confined inv ok view (newEntity c name ns : Task σ Text) :=
  Confined.bind (.record _ _ _) fun _ => .pure _

theorem confined_openClass (h : ∀ e, ok (.unparsable e)) (source : Text) (p : Path) :
    Confined inv ok view (openClass source p : Task σ ClassFile) := by
  rw [openClass]
  split
  · exact Confined.bind (.recordAll _) fun _ => .pure _
  · exact .throw (h _)

theorem confined_editClass {e : Edit Unit} (he : e.FailsWith ok) (f : ClassFile) :
    Confined inv ok view (editClass f e : Task σ ClassFile) :=
  Confined.bind (.recordAll _) fun _ => Confined.bind (.settle (he _)) fun _ => .pure _

end

namespace Backlog

/-- The edit that declares a side. -/
def edit (i : Text) (side : InverseSide) : Edit Unit :=
  Edit.addRelation i side.toRelation (some side.backReferenceName)

section

variable {inv : Tree → Prop} {ok : Failure → Prop} (h : Usual inv ok)
  (hunparsable : ∀ e, ok (.unparsable e))

include h hunparsable

/-- **Work on a target** fails as its edits do, or as the store does. -/
theorem confined_patch {store : Store} {target : Text} {sides : List InverseSide}
    (hsides : ∀ side ∈ sides, (edit store.config.indent side).FailsWith ok) :
    Confined inv ok (fun p : Patch => p.outcome.failure) (patch store target sides) := by
  refine Store.confined_withLock h store target ?_
  refine Confined.bind ?_ fun source => (confined_openClass hunparsable _ _).bind fun f => ?_
  · refine (confined_readText? h _).bind fun source => ?_
    cases source with
    | some source => exact .pure _
    | none =>
      exact (confined_newEntity _ _ _).bind fun _ => Confined.bind (.modify fun _ => rfl) fun _ =>
        Confined.bind (.record _ _ _) fun _ => .pure _
  · refine Confined.bind (.foldlM (fun f side hside => ?_) f) fun f => ?_
    · exact (confined_editClass (hsides side hside) f).bind fun _ =>
        Confined.bind (.modify fun _ => rfl) fun _ => .pure _
    · refine Confined.bind (.onPart (by intros; rfl) (Store.confined_save h store _ _)) fun _ => ?_
      exact .modify fun _ => rfl

end

end Backlog

namespace Generation.Generator

open Validation

/-- What a report tells of other things than the steps of the run. -/
structure Discreet {ρ : Type} (view : Run → ρ) : Prop where
  eq : ∀ run run' : Run, run'.report.entity = run.report.entity →
    run'.report.outcomes = run.report.outcomes →
      run'.report.validationErrors = run.report.validationErrors → view run' = view run

section

variable {ρ : Type} {inv : Tree → Prop} {ok : Failure → Prop} {view : Run → ρ}
  (hview : Discreet view)

include hview

theorem confined_note {f : Report → Report} (hf : ∀ r, (f r).entity = r.entity ∧
      (f r).outcomes = r.outcomes ∧ (f r).validationErrors = r.validationErrors) :
    Confined inv ok view (note f) :=
  .modify fun run => hview.eq _ _ (hf run.report).1 (hf run.report).2.1 (hf run.report).2.2

theorem confined_enter (phase : Phase) : Confined inv ok view (enter phase) :=
  confined_note hview fun _ => ⟨rfl, rfl, rfl⟩

theorem confined_step (name : Text) (success : Bool) (detail : Text) :
    Confined inv ok view (step name success detail) :=
  confined_note hview fun _ => ⟨rfl, rfl, rfl⟩

theorem confined_stored {α : Type} {t : Task Storage.Written α}
    (ht : Confined inv ok (fun _ => ()) t) : Confined inv ok view (stored t) :=
  .onPart (fun _ run _ => hview.eq run _ rfl rfl rfl) ht

variable {g : Generator} {p : Plan} (h : Usual inv ok)

include h

theorem confined_save (f : ClassFile) : Confined inv ok view (g.save p f) := by
  refine (confined_enter hview _).bind fun _ => Confined.bind (.timed ?_) fun _ =>
    confined_step hview _ _ _
  refine (confined_stored hview (Store.confined_save h g.store _ _)).bind fun _ => ?_
  refine Confined.bind .get fun run => ?_
  split
  · exact (confined_stored hview (Store.confined_writeRepository h g.store _ _)).bind
      fun _ => .pure _
  · exact .pure _

theorem confined_load (hunparsable : ∀ e, ok (.unparsable e)) :
    Confined inv ok view (g.load p) := by
  refine (confined_enter hview _).bind fun _ => Confined.bind (.timed ?_) fun f => ?_
  · refine Confined.bind ?_ fun source => confined_openClass hunparsable _ _
    refine (confined_readText? h _).bind fun source => ?_
    cases source with
    | some source => exact .pure _
    | none =>
      refine Confined.bind (confined_note hview fun _ => ⟨rfl, rfl, rfl⟩) fun _ => ?_
      exact (confined_newEntity _ _ _).bind fun _ => Confined.bind (.record _ _ _) fun _ => .pure _
  · exact Confined.bind .get fun _ => (confined_step hview _ _ _).bind fun _ => .pure _

end

/-- What the plan may fail with in itself: its relations when they are resolved, and the edits that it
asks for. -/
structure Admits (ok : Failure → Prop) (c : Config) (p : Plan) : Prop where
  resolve : ∀ r ∈ p.relations, ∀ e, r.resolve p.name = .error e → ok (.refused e)
  inverse : ∀ r ∈ p.relations, ∀ s, r.resolve p.name = .ok s → ∀ e,
    s.inverseSide p.name c = .error e → ok e
  field : ∀ f ∈ p.fields,
    (Edit.addField c.indent f.name f.type (some f.type.phpType) f.nullable).FailsWith ok
  relation : ∀ r ∈ p.relations, ∀ s, r.resolve p.name = .ok s →
    (Edit.addRelation c.indent s none).FailsWith ok

section

variable {ρ : Type} {inv : Tree → Prop} {ok : Failure → Prop} {view : Run → ρ}
  {g : Generator} {p : Plan} (hview : Discreet view) (hadmits : Admits ok g.config p)

include hview hadmits

theorem confined_collectRelation {r : Relation} (hr : r ∈ p.relations) :
    Confined inv ok view (collectRelation g.config p.name r) := by
  rw [collectRelation]
  cases hresolve : r.resolve p.name with
  | error e => exact .throw (hadmits.resolve r hr e hresolve)
  | ok s =>
    refine Confined.bind (.recordAll _) fun _ => ?_
    refine Confined.bind (.settle (hadmits.inverse r hr s hresolve)) fun side => ?_
    cases side with
    | none => exact .pure _
    | some side =>
      refine Confined.bind (.modify fun run => hview.eq run _ rfl rfl rfl) fun _ => ?_
      exact Confined.bind (.recordAll _) fun _ => .pure _

theorem confined_collect (f : ClassFile) : Confined inv ok view (g.collect p f) := by
  refine (confined_enter hview _).bind fun _ => Confined.bind (.timed ?_) fun relations => ?_
  · refine Confined.bind (confined_note hview fun _ => ⟨rfl, rfl, rfl⟩) fun _ => ?_
    exact .mapM fun r hr => confined_collectRelation hview hadmits hr
  · exact Confined.bind .get fun _ => (confined_step hview _ _ _).bind fun _ => .pure _

theorem confined_mutate (f : ClassFile) {relations : List Relation}
    (hrelations : ∀ s ∈ relations, ∃ r ∈ p.relations, r.resolve p.name = .ok s) :
    Confined inv ok view (g.mutate p relations f) := by
  refine (confined_enter hview _).bind fun _ => Confined.bind (.timed ?_) fun f =>
    (confined_step hview _ _ _).bind fun _ => .pure _
  refine .foldlM (fun f e he => confined_editClass ?_ f) f
  rw [edits, List.mem_append, List.mem_map, List.mem_map] at he
  rcases he with ⟨d, hd, rfl⟩ | ⟨s, hs, rfl⟩
  · exact hadmits.field d hd
  · obtain ⟨r, hr, hresolve⟩ := hrelations s hs
    exact hadmits.relation r hr s hresolve

/-- **Bringing the plan into the entity's file** fails as the plan does, or as the store does. -/
theorem confined_primary (h : Usual inv ok) (hunparsable : ∀ e, ok (.unparsable e)) :
    Confined inv ok view (g.primary p) := by
  refine Store.confined_withLock h g.store _ ?_
  refine (confined_load hview h hunparsable).bind fun f => ?_
  refine (confined_collect hview hadmits f).bind_of_yields fun relations s w s' w' _ hyields => ?_
  obtain ⟨b, -, hcollected⟩ := of_collect hyields
  refine (confined_mutate hview hadmits f fun s hs => hcollected.of_mem_resolved hs).bind fun f => ?_
  exact confined_save hview h f

end

end Generation.Generator

end EntityScaffold
