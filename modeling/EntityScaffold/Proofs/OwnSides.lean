import EntityScaffold.Proofs.Draining
import EntityScaffold.Proofs.Storage.OwnFiles

/-!
# What work on a target declares

A target gets its own sides, in the order of their coming, up to the first that cannot be declared.
If all of them can, its file holds the class that it held before, or a new one, with the sides
declared in it.

* `Backlog.Declares` — the properties that a task adds to the outcome.
* `Backlog.properties_of_drainTarget` — an outcome has the properties of the sides of its target.
* `Backlog.rewritten` — the class with the sides declared in it, as a function of what the file held.
* `Backlog.content_of_drainTarget` — that class is what the file holds in the end.
-/

set_option autoImplicit false

namespace EntityScaffold

open Text Source Storage Storage.Task

namespace Backlog

/-! ## The properties of an outcome -/

/-- The outcome after work that was to declare the properties `more`, and has declared them all if
it is `done`. -/
structure Extends (o : Outcome) (more : List Text) (done : Bool) (o' : Outcome) : Prop where
  target : o'.target = o.target
  failure : o'.failure = o.failure
  properties : ∃ l, l <+: more ∧ o'.properties = o.properties ++ l ∧ (done = true → l = more)

/-- The task is to declare the properties `more`. -/
def Declares {α : Type} (more : List Text) (t : Task Patch α) : Prop :=
  ∀ p, (t.program p).Ensures (fun _ => True) fun r => Extends p.outcome more r.1.isOk r.2.outcome

section

variable {α β : Type} {store : Store} {target : Text} {sides : List InverseSide}
  {more more' : List Text}

/-- What the work leaves of an outcome apart from the path and from whether the target is new. -/
def kept (p : Patch) : Text × Option Failure × List Text :=
  (p.outcome.target, p.outcome.failure, p.outcome.properties)

/-- A task that declares nothing. -/
theorem declares_of_keeps {t : Task Patch α} (h : Keeps (fun _ => True) kept t) :
    Declares [] t := fun p => (h p).imp fun r hr => by
  simp only [kept, Prod.mk.injEq] at hr
  exact ⟨hr.1, hr.2.1, [], List.prefix_refl _, by simpa using hr.2.2, fun _ => rfl⟩

theorem Declares.bind {t : Task Patch α} {k : α → Task Patch β} (ht : Declares more t)
    (hk : ∀ a, Declares more' (k a)) : Declares (more ++ more') (t >>= k) := by
  intro p
  rw [program_bind]
  refine (ht p).bind fun r hr => ?_
  obtain ⟨r, p'⟩ := r
  obtain ⟨htarget, hfailure, l, hl, hproperties, hall⟩ := hr
  cases r with
  | error e => exact ⟨htarget, hfailure, l, hl.trans (List.prefix_append _ _), hproperties, nofun⟩
  | ok a =>
    obtain rfl := hall rfl
    refine (hk a p').imp fun r hr => ?_
    obtain ⟨htarget', hfailure', l', hl', hproperties', hall'⟩ := hr
    refine ⟨htarget'.trans htarget, hfailure'.trans hfailure, l ++ l',
      (List.prefix_append_right_inj l).mpr hl', ?_, fun h => congrArg _ (hall' h)⟩
    rw [hproperties', hproperties, List.append_assoc]

/-- A task that declares, and one that declares nothing. -/
theorem Declares.bind_keeps {t : Task Patch α} {k : α → Task Patch β} (ht : Declares more t)
    (hk : ∀ a, Keeps (fun _ => True) kept (k a)) : Declares more (t >>= k) := by
  have h := ht.bind fun a => declares_of_keeps (hk a)
  rwa [List.append_nil] at h

/-- The same the other way round. -/
theorem declares_keeps_bind {t : Task Patch α} {k : α → Task Patch β}
    (ht : Keeps (fun _ => True) kept t) (hk : ∀ a, Declares more (k a)) :
    Declares more (t >>= k) :=
  (declares_of_keeps ht).bind hk

theorem Declares.andFinally {t : Task Patch α} {last : Task Patch Unit} (ht : Declares more t)
    (hlast : Keeps (fun _ => True) kept last) : Declares more (andFinally t last) := by
  intro p
  have hattempt : (attempt t).program p = (t.program p).bind fun r => .done (.ok r.1, r.2) := rfl
  rw [Task.andFinally, program_bind, hattempt, Program.bind_assoc]
  refine (ht p).bind fun r hr => ?_
  obtain ⟨r, p'⟩ := r
  obtain ⟨htarget, hfailure, l, hl, hproperties, hall⟩ := hr
  change ((last >>= fun _ => settle r).program p').Ensures _ _
  rw [program_bind]
  refine (hlast p').bind fun r' hr' => ?_
  obtain ⟨r', p''⟩ := r'
  simp only [kept, Prod.mk.injEq] at hr'
  have hextends : ∀ done : Bool, (done = true → r.isOk = true) →
      Extends p.outcome more done p''.outcome := fun done hdone =>
    ⟨hr'.1.trans htarget, hr'.2.1.trans hfailure, l, hl, hr'.2.2.trans hproperties,
      fun h => hall (hdone h)⟩
  cases r' with
  | error e => exact hextends _ nofun
  | ok =>
    cases r with
    | error e => exact hextends _ nofun
    | ok a => exact hextends _ fun _ => rfl

theorem declares_declare (i : Text) (f : ClassFile) (side : InverseSide) :
    Declares [side.property] (declare i f side) := by
  refine declares_keeps_bind (keeps_editClass _ _) fun f => ?_
  have hmodify : Declares [side.property] (modify fun p : Patch =>
      { p with outcome := { p.outcome with properties := p.outcome.properties ++ [side.property] } } :
      Task Patch PUnit) :=
    fun p => ⟨rfl, rfl, _, List.prefix_refl _, rfl, fun _ => rfl⟩
  exact hmodify.bind_keeps fun _ => .pure _

theorem declares_foldlM (i : Text) (sides : List InverseSide) (f : ClassFile) :
    Declares (sides.map (·.property)) (sides.foldlM (declare i) f) := by
  induction sides generalizing f with
  | nil => exact declares_of_keeps (.pure f)
  | cons side sides ih => exact (declares_declare i f side).bind ih

/-- **Work on a target declares its sides.** -/
theorem declares_patch (store : Store) (target : Text) (sides : List InverseSide) :
    Declares (sides.map (·.property)) (patch store target sides) := by
  have hbody : Declares (sides.map (·.property)) (body store target sides) := by
    refine declares_keeps_bind (keeps_sourceOf fun _ => rfl) fun source => ?_
    refine declares_keeps_bind (keeps_openClass _ _) fun f => ?_
    refine (declares_foldlM _ sides f).bind_keeps fun f => ?_
    have hwrite : Keeps (fun _ => True) (fun _ => ()) (store.write target f.serialize) :=
      Store.keeps_save (fun _ => ⟨trivial, fun _ => trivial⟩) _
    have hpart : Keeps (fun _ => True) kept
        (onPart Patch.written (fun w p => { p with written := w })
          (store.write target f.serialize)) := .onPart (by intros; rfl) hwrite
    exact hpart.bind fun _ => .modify fun _ => rfl
  rw [patch_eq, Store.withLock]
  split
  · exact declares_keeps_bind (Store.keeps_acquire trivial) fun _ =>
      hbody.andFinally (Store.keeps_release trivial)
  · exact hbody

/-- **An outcome has the properties of the sides of its target**, all of them if nothing has gone
wrong. -/
theorem properties_of_drainTarget {ws ws' : Storage.Written} {w w' : World} {o : Outcome}
    (h : Yields (drainTarget store (target, sides)) ws w o ws' w') :
    o.target = target ∧ o.properties <+: sides.map (·.property) ∧
      (o.failure = none → o.properties = sides.map (·.property)) := by
  obtain ⟨⟨u, patched⟩, ws₁, w₁, hwithin, h⟩ := Yields.of_bind h
  obtain ⟨rfl, -, rfl⟩ := Yields.of_pure h
  obtain ⟨htimed, -⟩ := Yields.of_within hwithin
  obtain ⟨w₂, hsettle, -⟩ := Yields.of_timed htimed
  obtain ⟨r, p, w₃, hattempt, h⟩ := Yields.of_bind hsettle
  have hextends := (declares_patch store target sides
    ⟨ws, { target := target }⟩).result w
  rw [Yields.of_attempt hattempt] at hextends
  obtain ⟨htarget, hfailure, l, hl, hproperties, hall⟩ := hextends
  rw [List.nil_append] at hproperties
  cases r with
  | ok =>
    obtain ⟨-, rfl, -⟩ := Yields.of_pure h
    exact ⟨htarget, hproperties ▸ hl, fun _ => hproperties.trans (hall rfl)⟩
  | error e =>
    dsimp only at h
    split at h
    · obtain ⟨rfl, -⟩ := Yields.of_record (Yields.of_modify_bind h)
      exact ⟨htarget, hproperties ▸ hl, nofun⟩
    · exact (Yields.of_throw h).elim

end

/-! ## The file of a target -/

section

variable {store : Store} {target : Text} {sides : List InverseSide} {w w' : World} {t t' : Tree}

/-- The name of a target's file. -/
def fileName (target : Text) : Text := shortName target ++ ".php"

theorem two_lt_fileName (target : Text) : 2 < (fileName target).length := by
  simp [fileName]

/-- The path of a target is that of an entry of the entities' directory. -/
theorem pathFor_eq_entry (store : Store) {target : Text} (hslash : '/' ∉ shortName target) :
    store.pathFor target = store.config.entityDir.entry (fileName target) :=
  child_eq (by simpa [fileName] using hslash) (two_lt_fileName target)

theorem lockPathFor_eq_entry (store : Store) {target : Text} (hslash : '/' ∉ shortName target) :
    store.lockPathFor target = store.config.entityDir.entry (fileName target ++ ".lock") := by
  rw [Store.lockPathFor, pathFor_eq_entry _ hslash, name_entry, withName_entry]

theorem parent_pathFor (store : Store) {target : Text} (hslash : '/' ∉ shortName target) :
    (store.pathFor target).parent = store.config.entityDir := by
  rw [pathFor_eq_entry _ hslash, parent_entry]

/-- The source that work on a target begins with, if its file holds `held`. -/
def sourceText (store : Store) (target : Text) (held : Except OsCause Bytes) :
    Except Failure Text :=
  match held with
  | .ok bytes => textOf bytes
  | .error .notFound =>
    .ok (Render.entityStub store.config (shortName target) (namespaceOf? target))
  | .error cause => .error (.os (failAt (store.pathFor target) cause))

/-- The class with a side declared in it. -/
def declared (i : Text) (f : ClassFile) (side : InverseSide) : Except Failure ClassFile :=
  let r := (Edit.addRelation i side.toRelation (some side.backReferenceName)).run { file := f }
  r.1.map fun _ => r.2.file

/-- The class that a target's file comes to hold, if it holds `held`: with the sides declared in it,
one after another. -/
def rewritten (store : Store) (target : Text) (sides : List InverseSide)
    (held : Except OsCause Bytes) : Except Failure ClassFile := do
  let source ← sourceText store target held
  let f ← (ClassFile.parse source (some (store.pathFor target).text)).mapError .unparsable
  sides.foldlM (declared store.config.indent) f

theorem of_sourceOf {p p' : Patch} {source : Text}
    (h : Yields (sourceOf store target) p w source p' w') :
    sourceText store target (w.tree.read (store.pathFor target)) = .ok source := by
  obtain ⟨source?, p₁, w₁, hread, h⟩ := Yields.of_bind h
  have hread := Yields.of_perform_bind hread
  rw [Operation.run] at hread
  cases hheld : w.tree.read (store.pathFor target) with
  | ok bytes =>
    rw [hheld] at hread
    obtain ⟨text, htext, hread⟩ := Yields.of_settle_bind hread
    obtain ⟨rfl, -, -⟩ := Yields.of_pure hread
    obtain ⟨rfl, -, -⟩ := Yields.of_pure h
    exact htext
  | error cause =>
    rw [hheld] at hread
    dsimp only [Except.mapError, failAt] at hread
    split at hread
    · rename_i hcause
      subst hcause
      obtain ⟨rfl, -, -⟩ := Yields.of_pure hread
      obtain ⟨new, p₂, w₂, hnew, h⟩ := Yields.of_bind h
      obtain ⟨w₃, -, hnew⟩ := Yields.of_record_bind hnew
      obtain ⟨rfl, -, -⟩ := Yields.of_pure hnew
      have h := Yields.of_modify_bind h
      obtain ⟨w₄, -, h⟩ := Yields.of_record_bind h
      obtain ⟨rfl, -, -⟩ := Yields.of_pure h
      rfl
    · exact (Yields.of_throw hread).elim

theorem of_declare {i : Text} {f g : ClassFile} {p p' : Patch} {side : InverseSide}
    (h : Yields (declare i f side) p w g p' w') : declared i f side = .ok g := by
  obtain ⟨f', p₁, w₁, hedit, h⟩ := Yields.of_bind h
  have h := Yields.of_modify_bind h
  obtain ⟨rfl, -, -⟩ := Yields.of_pure h
  obtain ⟨hok, rfl⟩ := Yields.of_editClass hedit
  rw [declared, hok]
  rfl

theorem of_declareAll {i : Text} {f g : ClassFile} {p p' : Patch}
    (h : Yields (sides.foldlM (declare i) f) p w g p' w') :
    sides.foldlM (declared i) f = .ok g := by
  induction sides generalizing f p w with
  | nil =>
    obtain ⟨rfl, -, -⟩ := Yields.of_pure h
    rfl
  | cons side sides ih =>
    rw [List.foldlM_cons] at h ⊢
    obtain ⟨f', p₁, w₁, hfirst, h⟩ := Yields.of_bind h
    rw [of_declare hfirst]
    exact ih h

/-- **What is done behind the lock** writes the class with the sides declared in it. -/
theorem of_body (hdry : store.config.dryRun = false) {p p' : Patch} {u : Unit}
    (h : Yields (body store target sides) p w u p' w') :
    ∃ g, rewritten store target sides (w.tree.read (store.pathFor target)) = .ok g ∧
      w'.tree.read (store.pathFor target) = .ok (encode g.serialize) := by
  obtain ⟨source, p₁, w₁, hsource, h⟩ := Yields.of_bind h
  obtain ⟨f, p₂, w₂, hopen, h⟩ := Yields.of_bind h
  obtain ⟨g, p₃, w₃, hdeclare, h⟩ := Yields.of_bind h
  obtain ⟨q, p₄, w₄, hwrite, h⟩ := Yields.of_bind h
  obtain ⟨-, rfl⟩ := Yields.of_modify h
  obtain ⟨written, hsave, -⟩ := Yields.of_onPart hwrite
  have hparse : ClassFile.parse source (some (store.pathFor target).text) = .ok f := by
    rw [openClass] at hopen
    split at hopen
    · rename_i f' hf'
      obtain ⟨w₅, -, hopen⟩ := Yields.of_recordAll_bind hopen
      obtain ⟨rfl, -, -⟩ := Yields.of_pure hopen
      exact hf'
    · exact (Yields.of_throw hopen).elim
  refine ⟨g, ?_, Store.of_save hdry hsave⟩
  rw [rewritten, of_sourceOf hsource]
  change (((ClassFile.parse source _).mapError _) >>= _) = _
  rw [hparse]
  exact of_declareAll hdeclare

/-- A lock that is taken leaves what the file holds, in a directory that is there then. -/
theorem read_of_acquire {p p' : Patch} {u : Unit} (hslash : '/' ∉ shortName target)
    (hnul : (store.pathFor target).hasNul = false)
    (h : Yields (store.acquire target) p w u p' w') :
    w'.tree.read (store.pathFor target) =
      (store.prepared w.tree).read (store.pathFor target) := by
  have hentry : (store.config.entityDir.entry (fileName target)).hasNul = false :=
    pathFor_eq_entry store hslash ▸ hnul
  have hdirectory : store.config.entityDir.hasNul = false := by
    rw [Path.hasNul_entry, Bool.or_eq_false_iff] at hentry
    exact hentry.1
  have hparent : (store.lockPathFor target).parent = store.config.entityDir := by
    rw [lockPathFor_eq_entry _ hslash, parent_entry]
  obtain ⟨u, p₁, w₁, hensure, h⟩ := Yields.of_bind h
  rw [hparent] at hensure
  obtain ⟨t, -, ⟨d, hd, hreaches⟩ | ⟨-, e, -, hreaches⟩⟩ :=
    attempts_ensureDirectory hdirectory w.tree
  · obtain ⟨w₂, hrun, hw₂⟩ := hreaches Patch p w rfl
    cases hensure.symm.trans hrun
    rw [hreaches.prepared, ← hw₂]
    have h := Yields.of_perform_bind h
    rw [Operation.run, lockPathFor_eq_entry _ hslash] at h
    have hroot : Rooted store.config.entityDir d w₁.tree := hw₂ ▸ hd
    cases hcreate : w₁.tree.create (store.config.entityDir.entry (fileName target ++ ".lock"))
        (encode store.owner) with
    | ok tree =>
      rw [hcreate] at h
      obtain ⟨-, htree⟩ := Yields.of_record h
      have hcreated : w'.tree = tree := htree
      have hroot' : Rooted store.config.entityDir d tree := by
        obtain ⟨place, hplace, hnone, rfl⟩ := create_eq_ok.mp hcreate
        exact hroot.firm (firm_set _ (by simp [hnone]))
      rw [hcreated, pathFor_eq_entry _ hslash]
      exact read_eq_of_entryAt hroot' hroot (two_lt_fileName target) hentry
        (entryAt_of_create_lock hroot (two_lt_fileName target) hentry hcreate)
    | error cause =>
      rw [hcreate] at h
      dsimp only [World.change] at h
      split at h <;> exact (Yields.of_throw h).elim
  · obtain ⟨w₂, hrun, -⟩ := hreaches Patch p w rfl
    cases hensure.symm.trans hrun

/-- **A target whose work has not failed** holds the class with its sides declared in it. -/
theorem content_of_drainTarget (hdry : store.config.dryRun = false)
    (hslash : '/' ∉ shortName target) (hnul : (store.pathFor target).hasNul = false)
    (hsteady : store.locks = false → (store.prepared w.tree).read (store.pathFor target) =
      w.tree.read (store.pathFor target)) {ws ws' : Storage.Written} {o : Outcome}
    (h : Yields (drainTarget store (target, sides)) ws w o ws' w') (ho : o.failure = none) :
    ∃ g, rewritten store target sides
        ((store.prepared w.tree).read (store.pathFor target)) = .ok g ∧
      w'.tree.read (store.pathFor target) = .ok (encode g.serialize) := by
  obtain ⟨p, v, hpatch, htree⟩ := patch_of_succeeded h ho
  rw [htree]
  rw [patch_eq, Store.withLock] at hpatch
  cases hlocks : store.locks with
  | false =>
    rw [hlocks, if_neg Bool.false_ne_true] at hpatch
    rw [hsteady hlocks]
    exact of_body hdry hpatch
  | true =>
    rw [hlocks, if_pos rfl] at hpatch
    obtain ⟨u, p₁, w₁, hacquire, hpatch⟩ := Yields.of_bind hpatch
    obtain ⟨p₂, w₂, hbody, hrelease⟩ := Yields.of_andFinally hpatch
    obtain ⟨g, hg, hread⟩ := of_body hdry hbody
    rw [read_of_acquire hslash hnul hacquire] at hg
    have hrelease' : Keeps (Apart (fileName target)) (fun _ : Patch => ()) (store.release target) :=
      Store.keeps_release (Store.apart_lockPathFor _ target)
    have hpath := pathFor_eq_entry store hslash
    have hends : (store.pathFor target).endsInName = true := by
      rw [hpath]
      exact (apart_of_parts (n := []) (by simp [fileName]) (two_lt_fileName target)).1
    have hname : (store.pathFor target).name = fileName target := by rw [hpath, name_entry]
    exact ⟨g, hg, (hrelease'.kept hrelease).read_eq hends hname hread⟩

end

end Backlog

end EntityScaffold
