import EntityScaffold.Proofs.OwnSides

/-!
# Targets do not affect each other

The targets of a backlog are worked on one after another, each on its own files.  What becomes of
one of them is what would become of it alone.

* `Isolates` — what holds of the trees on the way: those before a target is worked on are as good as
  the first one, those behind it as good as the one that work on it alone would leave.
* `isolates_of_dryRun`, `isolates_of_blocked`, `isolates_of_rooted` — the three ways things can go.
* `isolated_of_separate` — the result: targets with files of their own do not affect each other.
-/

set_option autoImplicit false

namespace EntityScaffold

open Text Storage Storage.Task

namespace Backlog

/-- Work on one target is the same from every tree on the way as from the first, and leaves the trees
of the others on the way.  `pre` holds of the trees in which a target is still to be worked on,
`post` relates those behind it to what work on it alone leaves. -/
structure Isolates (store : Store) (first : Tree) (targets : List Text) (pre : Text → Tree → Prop)
    (post : Text → Between) : Prop where
  start : ∀ target ∈ targets, pre target first
  work : ∀ target ∈ targets, ∀ (sides : List InverseSide) (ws ws' : Written) (w w' : World),
    pre target w.tree → w'.tree = first →
      ∃ o vs v o' vs' v', Yields (drainTarget store (target, sides)) ws w o vs v ∧
        Yields (drainTarget store (target, sides)) ws' w' o' vs' v' ∧ o.verdict = o'.verdict ∧
          post target v.tree v'.tree ∧ ∀ other ∈ targets, other ≠ target →
            (pre other w.tree → pre other v.tree) ∧
              ∀ t, post other w.tree t → post other v.tree t
  read : ∀ target ∈ targets, ∀ t t', post target t t' →
    (t.read (store.pathFor target)).toOption = (t'.read (store.pathFor target)).toOption

variable {store : Store} {first : Tree} {targets : List Text}

/-- Where the work leads from such trees to such trees again and reads the same in all of them. -/
theorem isolates_of_stays {stays : Tree → Prop} (hfirst : stays first)
    (hread : ∀ target ∈ targets, ∀ t t', stays t → stays t' →
      (t.read (store.pathFor target)).toOption = (t'.read (store.pathFor target)).toOption)
    (hpatch : ∀ target ∈ targets, ∀ sides, Agrees Patch.verdict (fun t t' => stays t ∧ stays t')
      (fun t t' => stays t ∧ stays t') (fun t t' => stays t ∧ stays t')
      (patch store target sides) (patch store target sides)) :
    Isolates store first targets (fun _ => stays) (fun _ t t' => stays t ∧ stays t') where
  start _ _ := hfirst
  work target htarget sides ws ws' w w' hw hw' := by
    obtain ⟨o, vs, v, o', vs', v', h, h', hverdict, hv, hv'⟩ :=
      yields_drainTarget (hpatch target htarget sides) (fun _ _ h => h) ws ws'
        ⟨hw, hw' ▸ hfirst⟩
    exact ⟨o, vs, v, o', vs', v', h, h', hverdict, ⟨hv, hv'⟩, fun _ _ _ =>
      ⟨fun _ => hv, fun _ h => ⟨hv, h.2⟩⟩⟩
  read target htarget t t' h := hread target htarget t t' h.1 h.2

/-- **In a dry run** the tree stays as it is. -/
theorem isolates_of_dryRun (hdry : store.config.dryRun = true)
    (hnul : ∀ target ∈ targets, (store.pathFor target).hasNul = false)
    (hdecodes : ∀ target ∈ targets, ∀ bytes, first.read (store.pathFor target) = .ok bytes →
      (decode bytes).isOk = true) :
    Isolates store first targets (fun _ t => t = first) (fun _ t t' => t = first ∧ t' = first) := by
  refine isolates_of_stays rfl (fun target _ t t' h h' => by rw [h, h'])
    fun target htarget sides => ?_
  refine agrees_patch_of_dryRun hdry (agrees_read fun t t' h => by rw [h.1, h.2])
    (hnul target htarget)
    (fun _ _ h => h) fun t t' bytes h hread => hdecodes target htarget bytes (h.1 ▸ hread)

/-! ## The directory cannot be made -/

section

variable {second : Tree} {target : Text}

/-- Both trees are those before or behind the attempt to make the directory. -/
def Attempted (first second : Tree) (t t' : Tree) : Prop :=
  (t = first ∨ t = second) ∧ (t' = first ∨ t' = second)

/-- The attempt to make the directory fails from either tree, and leads to the second. -/
theorem agrees_ensureDirectory_of_blocked {σ ρ : Type} {view : σ → ρ} {after : Between}
    {e : OsError} (he : e.cause ≠ .nulInPath)
    (hreaches : Reaches (fun _ => ensureDirectory store.config.entityDir) first (.error (.os e))
      second)
    (hblocked : Blocked store.config.entityDir second)
    (hdirectory : store.config.entityDir.hasNul = false) (hslash : '/' ∉ shortName target) :
    Agrees view (Attempted first second) after (Attempted first second)
      (ensureDirectory (store.pathFor target).parent)
      (ensureDirectory (store.pathFor target).parent) := by
  obtain ⟨e', he', hagain⟩ := hblocked.reaches hdirectory
  have hall : ∀ t, t = first ∨ t = second → ∃ e : OsError, e.cause ≠ .nulInPath ∧
      Reaches (fun _ => ensureDirectory store.config.entityDir) t (.error (.os e)) second := by
    rintro t (rfl | rfl)
    · exact ⟨e, he, hreaches⟩
    · exact ⟨e', he', hagain⟩
  rw [parent_pathFor store hslash]
  refine agrees_of_reaches_error (k := fun _ => ensureDirectory store.config.entityDir)
    fun t t' h => ?_
  obtain ⟨x, hx, hm⟩ := hall t h.1
  obtain ⟨x', hx', hm'⟩ := hall t' h.2
  exact ⟨x, x', second, second, hx, hx', hm, hm', .inr rfl, .inr rfl⟩

/-- Nothing can be read there. -/
theorem read_ne_ok_of_blocked (hblocked : Blocked store.config.entityDir second)
    (huntouched : Untouched first second) (hslash : '/' ∉ shortName target)
    (hnul : (store.pathFor target).hasNul = false) {t : Tree} (ht : t = first ∨ t = second)
    (bytes : Bytes) : t.read (store.pathFor target) ≠ .ok bytes := by
  intro hread
  have hpath := pathFor_eq_entry store hslash
  have hread : second.read (store.pathFor target) = .ok bytes := by
    rcases ht with rfl | rfl
    · exact huntouched.read_eq hread
    · exact hread
  rw [hpath] at hread
  exact hblocked.read_ne_ok (hpath ▸ hnul) bytes hread

/-- **Where the directory of the entities cannot be made** no target is read or written. -/
theorem isolates_of_blocked (hdry : store.config.dryRun = false) {e : OsError}
    (he : e.cause ≠ .nulInPath)
    (hreaches : Reaches (fun _ => ensureDirectory store.config.entityDir) first (.error (.os e))
      second)
    (hblocked : Blocked store.config.entityDir second) (huntouched : Untouched first second)
    (hdirectory : store.config.entityDir.hasNul = false)
    (hslash : ∀ target ∈ targets, '/' ∉ shortName target)
    (hnul : ∀ target ∈ targets, (store.pathFor target).hasNul = false)
    (hsteady : store.locks = false → ∀ target ∈ targets,
      second.read (store.pathFor target) = first.read (store.pathFor target)) :
    Isolates store first targets (fun _ t => t = first ∨ t = second)
      (fun _ => Attempted first second) := by
  have hunread : ∀ target ∈ targets, ∀ t, t = first ∨ t = second → ∀ bytes,
      t.read (store.pathFor target) ≠ .ok bytes := fun target htarget t ht =>
    read_ne_ok_of_blocked hblocked huntouched (hslash target htarget) (hnul target htarget) ht
  have hnone : ∀ target ∈ targets, ∀ t, t = first ∨ t = second →
      (t.read (store.pathFor target)).toOption = none := by
    intro target htarget t ht
    cases hread : t.read (store.pathFor target) with
    | error cause => rfl
    | ok bytes => exact absurd hread (hunread target htarget t ht bytes)
  refine isolates_of_stays (.inl rfl) (fun target htarget t t' h h' => ?_)
    fun target htarget sides => ?_
  · rw [hnone target htarget t h, hnone target htarget t' h']
  · have hpath := pathFor_eq_entry store (hslash target htarget)
    have hfree : NulFree (store.pathFor target) :=
      hpath ▸ nulFree_entry (hpath ▸ hnul target htarget)
    -- the attempt fails, so what comes behind it is done from no tree
    have hnever : ∀ {op : Operation}, op.Agrees (fun _ _ => False) fun _ _ => False :=
      fun _ _ h => h.elim
    have hattempt {σ ρ : Type} (view : σ → ρ) : Agrees view (Attempted first second)
        (fun _ _ => False) (Attempted first second) (ensureDirectory (store.pathFor target).parent)
        (ensureDirectory (store.pathFor target).parent) :=
      agrees_ensureDirectory_of_blocked he hreaches hblocked hdirectory (hslash target htarget)
    cases hlocks : store.locks with
    | true =>
      have hpatch : Agrees Patch.verdict (Attempted first second) (fun _ _ => False)
          (Attempted first second) (patch store target sides) (patch store target sides) :=
        agrees_patch_of_locked hlocks (hattempt _) hnever hnever hfree (fun _ _ h => h)
          (fun _ _ h => h.elim) (fun _ _ _ h => h.elim) (fun _ _ _ _ _ h => h.elim)
          fun _ _ => hnever
      exact hpatch.mono (fun _ _ h => h.elim) fun _ _ h => h
    | false =>
      have hsame : ∀ t, t = first ∨ t = second →
          t.read (store.pathFor target) = first.read (store.pathFor target) := by
        rintro t (rfl | rfl)
        · rfl
        · exact hsteady hlocks target htarget
      have hread : (Operation.read (store.pathFor target)).Agrees (Attempted first second)
          (Attempted first second) :=
        agrees_read fun t t' h => (hsame t h.1).trans (hsame t' h.2).symm
      have hpatch : Agrees Patch.verdict (Attempted first second) (fun _ _ => False)
          (Attempted first second) (patch store target sides) (patch store target sides) :=
        agrees_patch_of_unlocked hdry hlocks hread hfree (fun _ _ h => h) (fun _ _ h => h.elim)
          (fun t _ bytes h hread => absurd hread (hunread target htarget t h.1 bytes)) (hattempt _)
          fun _ _ => hnever
      exact hpatch.mono (fun _ _ h => h.elim) fun _ _ h => h

end

/-! ## The directory can be made -/

section

variable {second b m : Tree} {d : Place} {target : Text} {n : Text}

/-- The tree is the first one, or the target's files are in it as in the second. -/
def Ahead (store : Store) (first second : Tree) (d : Place) (target : Text) (t : Tree) : Prop :=
  t = first ∨ SameFiles store.config.entityDir d (fileName target) t second

/-- From such a tree the directory is made, or is there. -/
theorem exists_made
    (hfirst : Reaches (fun _ => ensureDirectory store.config.entityDir) first (.ok ()) second)
    (hsecond : Rooted store.config.entityDir d second)
    (hb : Ahead store first second d target b) :
    ∃ m, Reaches (fun _ => ensureDirectory store.config.entityDir) b (.ok ()) m ∧
      (∀ other, Ahead store first second d other b →
        SameFiles store.config.entityDir d (fileName other) m second) ∧
      (Rooted store.config.entityDir d b → m = b) := by
  by_cases hbf : b = first
  · subst hbf
    exact ⟨second, hfirst, fun other _ => ⟨hsecond, hsecond, fun _ _ => rfl⟩,
      fun hb => hfirst.unique hb.reaches⟩
  · have hrooted := (hb.resolve_left hbf).rooted
    exact ⟨b, hrooted.reaches, fun other h => h.resolve_left hbf, fun _ => rfl⟩

/-- How the trees are related when work on a target has ended that began in `b` and in the first
tree: either the directory has been made, or nothing has been done at all. -/
def Ended (store : Store) (first second b m : Tree) (d : Place) (target : Text)
    (t t' : Tree) : Prop :=
  Working store.config.entityDir d (fileName target) m second t t' ∨
    store.locks = false ∧ t = b ∧ t' = first

section

variable (hfirst : Reaches (fun _ => ensureDirectory store.config.entityDir) first (.ok ()) second)
  (hm : Reaches (fun _ => ensureDirectory store.config.entityDir) b (.ok ()) m)
  (hsame : SameFiles store.config.entityDir d (fileName target) m second)
  (hslash : '/' ∉ shortName target) (hnul : (store.pathFor target).hasNul = false)

include hfirst hm hslash

/-- From either tree the directory is made. -/
theorem agrees_ensureDirectory_of_reaches {σ ρ : Type} {view : σ → ρ} {after failed : Between}
    (hafter : after m second) :
    Agrees view (fun t t' => t = b ∧ t' = first) after failed
      (ensureDirectory (store.pathFor target).parent)
      (ensureDirectory (store.pathFor target).parent) := by
  rw [parent_pathFor store hslash]
  refine agrees_of_reaches (k := fun _ => ensureDirectory store.config.entityDir) ?_
  rintro t t' ⟨rfl, rfl⟩
  exact ⟨m, second, hm, hfirst, hafter⟩

include hsame hnul

/-- **Behind the lock** the file is still as it was when the directory had been made. -/
theorem agrees_patch_of_rooted_locked (hlocks : store.locks = true)
    (hdecodes : ∀ bytes, second.read (store.pathFor target) = .ok bytes →
      (decode bytes).isOk = true) (sides : List InverseSide) :
    Agrees Patch.verdict (fun t t' => t = b ∧ t' = first)
      (Working store.config.entityDir d (fileName target) m second)
      (Working store.config.entityDir d (fileName target) m second) (patch store target sides)
      (patch store target sides) := by
  have hpath := pathFor_eq_entry store hslash
  have hentry : (store.config.entityDir.entry (fileName target)).hasNul = false := hpath ▸ hnul
  have hn := two_lt_fileName target
  have hops : ∀ op : Operation, op.OnFile (store.pathFor target) →
      op.Agrees (Working store.config.entityDir d (fileName target) m second)
        (Working store.config.entityDir d (fileName target) m second) := fun op hop =>
    agrees_working hn hentry (hpath ▸ hop)
  have hread : ∀ t t', Working store.config.entityDir d (fileName target) m second t t' →
      t.read (store.pathFor target) = t'.read (store.pathFor target) := by
    intro t t' h
    rw [hpath]
    exact h.read_eq hn hentry
  have hstart : Working store.config.entityDir d (fileName target) m second m second :=
    ⟨hsame, fun _ _ => rfl, fun _ _ => rfl⟩
  have hdirectory : Agrees Patch.verdict (fun t t' => t = b ∧ t' = first)
      (fun t t' => Working store.config.entityDir d (fileName target) m second t t' ∧
        t.entryAt (d ++ [fileName target]) = m.entryAt (d ++ [fileName target]))
      (Working store.config.entityDir d (fileName target) m second)
      (ensureDirectory (store.pathFor target).parent)
      (ensureDirectory (store.pathFor target).parent) :=
    agrees_ensureDirectory_of_reaches hfirst hm hslash ⟨hstart, rfl⟩
  have hagain : Agrees (fun _ : Written => ())
      (Working store.config.entityDir d (fileName target) m second)
      (Working store.config.entityDir d (fileName target) m second)
      (Working store.config.entityDir d (fileName target) m second)
      (ensureDirectory (store.pathFor target).parent)
      (ensureDirectory (store.pathFor target).parent) := by
    rw [parent_pathFor store hslash]
    exact agrees_of_reaches (k := fun _ => ensureDirectory store.config.entityDir) fun t t' h =>
      ⟨t, t', h.rooted.reaches, h.rooted'.reaches, h⟩
  refine agrees_patch_of_locked hlocks hdirectory ?_ (agrees_read fun t t' h => hread t t' h.1)
    (hpath ▸ nulFree_entry hentry) (fun _ _ h => h.1) (fun _ _ h => h) ?_ hagain hops
  · rintro w w' ⟨hworking, hheld⟩
    obtain ⟨hanswer, hworking'⟩ := hops _ (.lock (encode store.owner)) w w' hworking
    refine ⟨hanswer, hworking', ?_⟩
    rw [← hheld, Operation.run, tree_change, lockPathFor_eq_entry _ hslash]
    cases hr : w.tree.create (store.config.entityDir.entry (fileName target ++ ".lock"))
        (encode store.owner) with
    | error cause => rfl
    | ok tree => exact entryAt_of_create_lock hworking.rooted hn hentry hr
  · rintro t t' bytes ⟨hworking, hheld⟩ hreadt
    refine hdecodes bytes ?_
    rw [hpath] at hreadt ⊢
    rw [← hreadt]
    exact (read_eq_of_entryAt hworking.rooted hsame.rooted' hn hentry
      (hheld.trans (hsame.own _ .file))).symm

/-- **Work on a target** agrees from every such tree and from the first one. -/
theorem agrees_patch_of_rooted (hdry : store.config.dryRun = false)
    (hdecodes : ∀ bytes, second.read (store.pathFor target) = .ok bytes →
      (decode bytes).isOk = true)
    (hb : store.locks = false → b.read (store.pathFor target) = second.read (store.pathFor target))
    (hsteady : store.locks = false →
      first.read (store.pathFor target) = second.read (store.pathFor target))
    (sides : List InverseSide) :
    Agrees Patch.verdict (fun t t' => t = b ∧ t' = first) (Ended store first second b m d target)
      (Ended store first second b m d target) (patch store target sides)
      (patch store target sides) := by
  cases hlocks : store.locks with
  | true =>
    exact (agrees_patch_of_rooted_locked hfirst hm hsame hslash hnul hlocks hdecodes sides).mono
      (fun _ _ h => .inl h) fun _ _ h => .inl h
  | false =>
    have hpath := pathFor_eq_entry store hslash
    have hentry : (store.config.entityDir.entry (fileName target)).hasNul = false := hpath ▸ hnul
    have hdirectory : Agrees (fun _ : Written => ()) (fun t t' => t = b ∧ t' = first)
        (Working store.config.entityDir d (fileName target) m second)
        (Ended store first second b m d target) (ensureDirectory (store.pathFor target).parent)
        (ensureDirectory (store.pathFor target).parent) :=
      agrees_ensureDirectory_of_reaches hfirst hm hslash
        ⟨hsame, fun _ _ => rfl, fun _ _ => rfl⟩
    refine (agrees_patch_of_unlocked hdry hlocks (agrees_read ?_) (hpath ▸ nulFree_entry hentry)
      (fun _ _ h => .inr ⟨hlocks, h⟩) (fun _ _ h => .inl h) ?_ hdirectory fun op hop =>
        agrees_working (two_lt_fileName target) hentry (hpath ▸ hop)).mono
      (fun _ _ h => .inl h) fun _ _ h => h
    · rintro t t' ⟨rfl, rfl⟩
      rw [hb hlocks, hsteady hlocks]
    · rintro t t' bytes ⟨rfl, rfl⟩ hreadt
      exact hdecodes bytes (hb hlocks ▸ hreadt)

end

/-- What has been done to one target leaves the files of the others. -/
theorem Ended.sameFiles {t t' c : Tree} {other : Text} (hother : shortName other ≠ shortName target)
    (h : Ended store first second b m d target t t')
    (hsame : SameFiles store.config.entityDir d (fileName other) m c) :
    t = b ∨ SameFiles store.config.entityDir d (fileName other) t c := by
  rcases h with hworking | ⟨-, hb, -⟩
  · refine .inr ⟨hworking.rooted, hsame.rooted', fun x hx => ?_⟩
    rw [← hsame.own x hx]
    refine hworking.others _ fun y hy heq => hother ?_
    have hxy : x = y := by simpa using heq
    exact Own.unique hx (hxy ▸ hy)
  · exact .inl hb

/-- **Where the directory of the entities can be made** each target is worked on in its own files. -/
theorem isolates_of_rooted (hdry : store.config.dryRun = false)
    (hfirst : Reaches (fun _ => ensureDirectory store.config.entityDir) first (.ok ()) second)
    (hsecond : Rooted store.config.entityDir d second)
    (hslash : ∀ target ∈ targets, '/' ∉ shortName target)
    (hnul : ∀ target ∈ targets, (store.pathFor target).hasNul = false)
    (hshort : ∀ target ∈ targets, ∀ other ∈ targets, other ≠ target →
      shortName other ≠ shortName target)
    (hdecodes : ∀ target ∈ targets, ∀ bytes, second.read (store.pathFor target) = .ok bytes →
      (decode bytes).isOk = true)
    (hsteady : store.locks = false → ∀ target ∈ targets,
      second.read (store.pathFor target) = first.read (store.pathFor target)) :
    Isolates store first targets (Ahead store first second d) (fun target t t' =>
      SameFiles store.config.entityDir d (fileName target) t t' ∨
        store.locks = false ∧ Ahead store first second d target t ∧ t' = first) where
  start _ _ := .inl rfl
  work target htarget sides ws ws' w w' hw hw' := by
    obtain ⟨m, hm, hmade, hkept⟩ := exists_made hfirst hsecond hw
    have hentry : (store.config.entityDir.entry (fileName target)).hasNul = false :=
      pathFor_eq_entry store (hslash target htarget) ▸ hnul target htarget
    have hread : store.locks = false →
        w.tree.read (store.pathFor target) = second.read (store.pathFor target) := by
      intro hlocks
      rcases hw with hw | hw
      · rw [hw, hsteady hlocks target htarget]
      · rw [pathFor_eq_entry _ (hslash target htarget)]
        exact hw.read_eq (two_lt_fileName target) hentry
    obtain ⟨o, vs, v, o', vs', v', h, h', hverdict, hended⟩ := yields_drainTarget
      (agrees_patch_of_rooted hfirst hm (hmade target hw) (hslash target htarget)
        (hnul target htarget) hdry (hdecodes target htarget) hread
        (fun hlocks => (hsteady hlocks target htarget).symm) sides)
      (fun _ _ h => h) ws ws' ⟨rfl, hw'⟩
    refine ⟨o, vs, v, o', vs', v', h, h', hverdict, ?_, fun other hother hne => ?_⟩
    · rcases hended with hworking | ⟨hlocks, hv, hv'⟩
      · exact .inl hworking.toSameFiles
      · exact .inr ⟨hlocks, hv ▸ hw, hv'⟩
    · have hnames := hshort target htarget other hother hne
      have hahead : Ahead store first second d other w.tree →
          Ahead store first second d other v.tree := by
        intro h
        rcases hended.sameFiles hnames (hmade other h) with hv | hv
        · exact hv ▸ h
        · exact .inr hv
      refine ⟨hahead, fun c hc => ?_⟩
      rcases hc with hc | ⟨hlocks, hc, hfirst⟩
      · rcases hended.sameFiles hnames (hkept hc.rooted ▸ hc) with hv | hv
        · exact .inl (hv ▸ hc)
        · exact .inl hv
      · exact .inr ⟨hlocks, hahead hc, hfirst⟩
  read target htarget t t' h := by
    have hpath := pathFor_eq_entry store (hslash target htarget)
    have hentry : (store.config.entityDir.entry (fileName target)).hasNul = false :=
      hpath ▸ hnul target htarget
    rcases h with h | ⟨hlocks, h | h, rfl⟩
    · rw [hpath, h.read_eq (two_lt_fileName target) hentry]
    · rw [h]
    · rw [← hsteady hlocks target htarget, hpath, h.read_eq (two_lt_fileName target) hentry]

end

/-! ## All targets -/

/-- **One target after another.** -/
theorem Isolates.mapM {pre : Text → Tree → Prop} {post : Text → Between}
    (h : Isolates store first targets pre post) (ws₀ : Written) {w₀ : World}
    (hw₀ : w₀.tree = first) {xs : List (Text × List InverseSide)} (hxs : ∀ x ∈ xs, x.1 ∈ targets)
    (hnodup : (xs.map (·.1)).Nodup) (ws : Written) {w : World} (hw : ∀ x ∈ xs, pre x.1 w.tree) :
    ∃ outcomes vs v, Yields (xs.mapM (drainTarget store)) ws w outcomes vs v ∧
      outcomes.map (·.target) = xs.map (·.1) ∧
      (∀ o ∈ outcomes, ∃ sides, (o.target, sides) ∈ xs ∧ ∃ alone vs' v',
        Yields (drainTarget store (o.target, sides)) ws₀ w₀ alone vs' v' ∧
          o.verdict = alone.verdict ∧ post o.target v.tree v'.tree) ∧
      ∀ other ∈ targets, other ∉ xs.map (·.1) → ∀ t, post other w.tree t → post other v.tree t := by
  induction xs generalizing w ws with
  | nil => exact ⟨[], ws, w, rfl, rfl, nofun, fun _ _ _ _ h => h⟩
  | cons x xs ih =>
    obtain ⟨target, sides⟩ := x
    rw [List.map_cons, List.nodup_cons] at hnodup
    have htarget := hxs (target, sides) List.mem_cons_self
    obtain ⟨o, vs, v, alone, vs', v', hyields, halone, hverdict, hpost, hothers⟩ :=
      h.work target htarget sides ws ws₀ w w₀ (hw _ List.mem_cons_self) hw₀
    have hne : ∀ x ∈ xs, x.1 ≠ target := fun x hx h =>
      hnodup.1 (List.mem_map.mpr ⟨x, hx, h⟩)
    obtain ⟨outcomes, vs₁, v₁, hrest, htargets, hall, hkeep⟩ := ih
      (fun x hx => hxs x (List.mem_cons_of_mem _ hx)) hnodup.2 vs (w := v) fun x hx =>
        (hothers x.1 (hxs x (List.mem_cons_of_mem _ hx)) (hne x hx)).1
          (hw x (List.mem_cons_of_mem _ hx))
    obtain rfl : o.target = target := (properties_of_drainTarget hyields).1
    refine ⟨o :: outcomes, vs₁, v₁, ?_, ?_, ?_, ?_⟩
    · rw [List.mapM_cons]
      exact hyields.bind (hrest.bind rfl)
    · rw [List.map_cons, List.map_cons, htargets]
    · intro o' ho'
      rcases List.mem_cons.mp ho' with rfl | ho'
      · exact ⟨sides, List.mem_cons_self, alone, vs', v', halone, hverdict,
          hkeep _ htarget hnodup.1 _ hpost⟩
      · obtain ⟨sides', hmem, hrest⟩ := hall o' ho'
        exact ⟨sides', List.mem_cons_of_mem _ hmem, hrest⟩
    · intro other hother hnot t ht
      rw [List.map_cons, List.mem_cons, not_or] at hnot
      exact hkeep other hother hnot.2 t ((hothers other hother hnot.1).2 t ht)

theorem map_byTarget (b : Backlog) : b.byTarget.map (·.1) = b.targets := by
  rw [byTarget, List.map_map]
  exact List.map_id' _

/-- The sides of one target are one piece of work. -/
theorem byTarget_filter {b : Backlog} {target : Text} (h : target ∈ b.targets) :
    Backlog.byTarget (b.filter (·.entity = target)) =
      [(target, b.filter (·.entity = target))] := by
  have honly : ∀ x, x ∈ targets (b.filter (·.entity = target)) ↔ x = target := by
    intro x
    obtain ⟨side, hside, heq⟩ := mem_targets.mp h
    rw [mem_targets]
    constructor
    · rintro ⟨side, hside, rfl⟩
      exact of_decide_eq_true (List.mem_filter.mp hside).2
    · rintro rfl
      exact ⟨side, List.mem_filter.mpr ⟨hside, decide_eq_true heq⟩, heq⟩
  have htargets : targets (b.filter (·.entity = target)) = [target] :=
    List.perm_singleton.mp ((List.perm_ext_iff_of_nodup (nodup_targets _)
      (List.nodup_singleton _)).mpr fun x => by rw [honly, List.mem_singleton])
  rw [byTarget, htargets, List.map_singleton, List.filter_filter]
  simp

/-- Work on a backlog of targets that have been worked on. -/
theorem yields_workOff {b : Backlog} {ws vs : Written} {w v : World} {outcomes : List Outcome}
    (h : Yields (b.byTarget.mapM (drainTarget store)) ws w outcomes vs v) :
    ∃ v', Yields (workOff store) ⟨b, ws⟩ w outcomes ⟨[], vs⟩ v' ∧ v'.tree = v.tree := by
  obtain ⟨v', hdrain, htree⟩ : ∃ v', Yields (drain store b) ws w outcomes vs v' ∧
      v'.tree = v.tree :=
    ⟨_, h.bind (Yields.bind rfl rfl), rfl⟩
  have hpart : Yields (onPart Pending.written (fun w p => { p with written := w }) (drain store b))
      ⟨[], ws⟩ w outcomes ⟨[], vs⟩ v' := by
    change (Program.bind ((drain store b).program ws) _).run w = _
    rw [Program.run_bind, hdrain]
    rfl
  exact ⟨v', hpart, htree⟩

/-- What keeps the targets of a backlog apart from each other and lets each of them be read. -/
structure Separate (store : Store) (b : Backlog) (t : Tree) : Prop where
  slash : ∀ target ∈ b.targets, '/' ∉ shortName target
  nul : ∀ target ∈ b.targets, (store.pathFor target).hasNul = false
  short : (b.targets.map shortName).Nodup
  decodes : ∀ target ∈ b.targets, ∀ bytes,
    (store.prepared t).read (store.pathFor target) = .ok bytes → (decode bytes).isOk = true
  /-- A target is read when the directory is there, or making the directory makes no difference. -/
  steady : store.locks = true ∨ store.config.dryRun = true ∨ ∀ target ∈ b.targets,
    (store.prepared t).read (store.pathFor target) = t.read (store.pathFor target)

section

variable {b : Backlog} {t : Tree}

/-- Without locks making the directory makes no difference. -/
theorem Separate.same (h : Separate store b t) (hdry : store.config.dryRun = false)
    (hlocks : store.locks = false) : ∀ target ∈ b.targets,
      (store.prepared t).read (store.pathFor target) = t.read (store.pathFor target) := by
  rcases h.steady with hlocks' | hdry' | hsteady
  · rw [hlocks] at hlocks'
    cases hlocks'
  · rw [hdry] at hdry'
    cases hdry'
  · exact hsteady

/-- Separate targets can be worked on one after another. -/
theorem Separate.isolates (h : Separate store b t) :
    ∃ pre post, Isolates store t b.targets pre post := by
  by_cases hempty : b.targets = []
  · rw [hempty]
    exact ⟨fun _ _ => True, fun _ _ _ => True, by simp, by simp, by simp⟩
  obtain ⟨target, htarget⟩ := List.exists_mem_of_ne_nil _ hempty
  have hdirectory : store.config.entityDir.hasNul = false := by
    have hentry := h.nul target htarget
    rw [pathFor_eq_entry _ (h.slash target htarget), Path.hasNul_entry,
      Bool.or_eq_false_iff] at hentry
    exact hentry.1
  obtain ⟨second, huntouched, hattempt⟩ := attempts_ensureDirectory hdirectory t
  have hsecond : store.prepared t = second := by
    rcases hattempt with ⟨d, -, hreaches⟩ | ⟨-, e, -, hreaches⟩ <;> exact hreaches.prepared
  cases hdry : store.config.dryRun with
  | true =>
    refine ⟨_, _, isolates_of_dryRun hdry h.nul fun target htarget bytes hread => ?_⟩
    exact h.decodes target htarget bytes (hsecond ▸ huntouched.read_eq hread)
  | false =>
    have hsteady : store.locks = false → ∀ target ∈ b.targets,
        second.read (store.pathFor target) = t.read (store.pathFor target) :=
      hsecond ▸ h.same hdry
    rcases hattempt with ⟨d, hd, hreaches⟩ | ⟨hblocked, e, he, hreaches⟩
    · have hshort : ∀ target ∈ b.targets, ∀ other ∈ b.targets, other ≠ target →
          shortName other ≠ shortName target := fun target htarget other hother hne heq =>
        hne (List.inj_on_of_nodup_map h.short hother htarget heq)
      exact ⟨_, _, isolates_of_rooted hdry hreaches hd h.slash h.nul hshort
        (hsecond ▸ h.decodes) hsteady⟩
    · exact ⟨_, _, isolates_of_blocked hdry he hreaches hblocked huntouched hdirectory h.slash h.nul
        hsteady⟩

end

/-- What becomes of each target of a backlog is what would become of it alone.  Working off the
backlog gives one outcome for each target, in the order of their coming, and leaves nothing on it.
The outcome of a target has the properties of its own sides, in their order, all of them if it has
succeeded; its file then is that of before, or a new one, with its own sides declared in it. -/
def Isolated (store : Store) (b : Backlog) (ws : Written) (w : World) : Prop :=
  ∃ outcomes vs v, Yields (workOff store) ⟨b, ws⟩ w outcomes ⟨[], vs⟩ v ∧
    outcomes.map (·.target) = b.targets ∧
    ∀ o ∈ outcomes,
      (∃ alone vs' v', Yields (workOff store) ⟨b.filter (·.entity = o.target), ws⟩ w [alone]
          ⟨[], vs'⟩ v' ∧ o.verdict = alone.verdict ∧
        (v.tree.read (store.pathFor o.target)).toOption =
          (v'.tree.read (store.pathFor o.target)).toOption) ∧
      o.properties <+: (b.filter (·.entity = o.target)).map (·.property) ∧
      (o.succeeded = true →
        o.properties = (b.filter (·.entity = o.target)).map (·.property)) ∧
      (o.succeeded = true → store.config.dryRun = false →
        ∃ f, rewritten store o.target (b.filter (·.entity = o.target))
            ((store.prepared w.tree).read (store.pathFor o.target)) = .ok f ∧
          v.tree.read (store.pathFor o.target) = .ok (encode f.serialize))

/-- **Separate targets are isolated**, whatever state their files are in. -/
theorem isolated_of_separate {b : Backlog} (ws : Written) {w : World}
    (h : Separate store b w.tree) : Isolated store b ws w := by
  obtain ⟨pre, post, hisolates⟩ := h.isolates
  have htargets : ∀ x ∈ b.byTarget, x.1 ∈ b.targets := fun x hx =>
    map_byTarget b ▸ List.mem_map_of_mem hx
  obtain ⟨outcomes, vs, v, hyields, hmap, hall, -⟩ := hisolates.mapM ws rfl htargets
    (map_byTarget b ▸ b.nodup_targets) ws fun x hx => hisolates.start x.1 (htargets x hx)
  obtain ⟨v₁, hworked, htree⟩ := yields_workOff hyields
  refine ⟨outcomes, vs, v₁, hworked, hmap.trans (map_byTarget b), fun o ho => ?_⟩
  obtain ⟨sides, hmem, alone, vs', v', halone, hverdict, hpost⟩ := hall o ho
  have htarget := htargets _ hmem
  obtain rfl : sides = b.filter (·.entity = o.target) := (of_mem_byTarget hmem).1
  have hread := hisolates.read _ htarget _ _ hpost
  have honly : Yields (Backlog.byTarget (b.filter (·.entity = o.target)) |>.mapM
      (drainTarget store)) ws w [alone] vs' v' := by
    rw [byTarget_filter htarget, List.mapM_cons]
    exact halone.bind (Yields.bind rfl rfl)
  obtain ⟨v₂, hworked', htree'⟩ := yields_workOff honly
  -- what is known of the work alone holds of the outcome, too
  obtain ⟨-, hprefix, hdone⟩ := properties_of_drainTarget halone
  have hproperties : o.properties = alone.properties := congrArg Verdict.properties hverdict
  have hsucceeded : o.succeeded = alone.succeeded := congrArg Verdict.succeeded hverdict
  have hfailure : o.succeeded = true → alone.failure = none := fun h =>
    Option.isNone_iff_eq_none.mp (hsucceeded.symm.trans h)
  rw [htree]
  refine ⟨⟨alone, vs', v₂, hworked', hverdict, htree' ▸ hread⟩, hproperties ▸ hprefix,
    fun h => hproperties.trans (hdone (hfailure h)), fun hok hdry => ?_⟩
  obtain ⟨f, hf, hcontent⟩ := content_of_drainTarget hdry (h.slash _ htarget) (h.nul _ htarget)
    (fun hlocks => h.same hdry hlocks _ htarget) halone (hfailure hok)
  refine ⟨f, hf, ?_⟩
  rw [hcontent] at hread
  cases hheld : v.tree.read (store.pathFor o.target) with
  | error cause =>
    rw [hheld] at hread
    cases hread
  | ok bytes =>
    rw [hheld] at hread
    rw [Option.some.inj hread]

/-- A side that refers to posts. -/
def sideOf (target property : Text) : InverseSide :=
  { entity := target, property := property, kind := .manyToOne,
    backReference := "App\\Entity\\Post" }

/-- A file without a class, and an entity that is new. -/
theorem isolated_broken_and_new :
    let store : Store := ⟨{}, "1"⟩
    let b : Backlog := [sideOf "App\\Entity\\Broken" "post", sideOf "App\\Entity\\Tag" "post",
      sideOf "App\\Entity\\Broken" "article", sideOf "App\\Entity\\Tag" "article"]
    let t : Tree := ⟨[(["app"], .directory), (["app", "Entity"], .directory),
      (["app", "Entity", "Broken.php"], .file (encode "<?php"))]⟩
    Separate store b t ∧ Isolated store b [] { tree := t } := by
  intro store b t
  have hdecodes : ∀ target ∈ b.targets, ((store.prepared t).read (store.pathFor target)).toOption.all
      (fun bytes => (decode bytes).isOk) = true := by decide +kernel
  have h : Separate store b t :=
    { slash := by decide, nul := by decide, short := by decide, steady := .inl rfl
      decodes := fun target htarget bytes hread => by
        have hall := hdecodes target htarget
        rwa [hread] at hall }
  exact ⟨h, isolated_of_separate [] h⟩

/-- Targets that are isolated have the same file in the end as alone. -/
theorem Isolated.read_eq {b : Backlog} {ws : Written} {w : World} (h : Isolated store b ws w)
    (target : Text) (htarget : target ∈ b.targets) :
    ((((workOff store).program ⟨b, ws⟩).run w).2.tree.read (store.pathFor target)).toOption =
      ((((workOff store).program ⟨b.filter (·.entity = target), ws⟩).run w).2.tree.read
        (store.pathFor target)).toOption := by
  obtain ⟨outcomes, vs, v, hyields, htargets, hall⟩ := h
  rw [← htargets] at htarget
  obtain ⟨o, ho, rfl⟩ := List.mem_map.mp htarget
  obtain ⟨⟨alone, vs', v', hyields', -, hread⟩, -⟩ := hall o ho
  rw [hyields, hyields']
  exact hread

/-- They are new if they are new alone. -/
theorem Isolated.created {b : Backlog} {ws : Written} {w : World} (h : Isolated store b ws w)
    (target : Text) (halone : ((((workOff store).program
      ⟨b.filter (·.entity = target), ws⟩).run w).1.1.toOption.all
        fun outcomes => outcomes.all (·.created)) = true) :
    ((((workOff store).program ⟨b, ws⟩).run w).1.1.toOption.any fun outcomes =>
      outcomes.any fun o => decide (o.target = target) && !o.created) = false := by
  obtain ⟨outcomes, vs, v, hyields, -, hall⟩ := h
  rw [hyields]
  refine List.any_eq_false.mpr fun o ho hcreated => ?_
  rw [Bool.and_eq_true, decide_eq_true_eq] at hcreated
  obtain ⟨rfl, hcreated⟩ := hcreated
  obtain ⟨⟨alone, vs', v', hyields', hverdict, -⟩, -⟩ := hall o ho
  rw [hyields'] at halone
  have hnew : alone.created = true := List.all_eq_true.mp halone alone (List.mem_singleton_self _)
  have hsame : o.created = alone.created := congrArg Verdict.created hverdict
  rw [hsame, hnew] at hcreated
  cases hcreated

/-- **Targets with different short names that are not isolated**: one file under two names; a name
too long for a file, which is found out only where the directory is there, and without locks it is
made by the work on another target; a name that no file can have, which no outcome tells of. -/
theorem not_isolated :
    let spelled : Backlog := [sideOf "./Tag" "class", sideOf "Tag" "post"]
    let held : Tree := ⟨[(["app"], .directory), (["app", "Entity"], .directory),
      (["app", "Entity", "Tag.php"], .file (encode "<?php class Tag{}"))]⟩
    let long : Backlog := [sideOf "Cat" "post", sideOf (List.replicate 252 'L') "class"]
    let nul : Backlog := [sideOf "Do\x00g" "post"]
    ((spelled.targets.map shortName).Nodup ∧ ¬ Isolated ⟨{}, "1"⟩ spelled [] { tree := held }) ∧
      ((long.targets.map shortName).Nodup ∧
        ¬ Isolated ⟨{ lockFiles := false }, "1"⟩ long [] { tree := {} }) ∧
      (nul.targets.map shortName).Nodup ∧ ¬ Isolated ⟨{}, "1"⟩ nul [] { tree := {} } := by
  intro spelled held long nul
  refine ⟨⟨by decide, fun h => ?_⟩, ⟨by decide +kernel, fun h => ?_⟩, by decide, ?_⟩
  · exact absurd (h.read_eq "./Tag" (by decide)) (by decide +kernel)
  · have hold := h.created (List.replicate 252 'L') (by decide +kernel)
    exact absurd hold (by decide +kernel)
  · rintro ⟨outcomes, vs, v, hyields, -⟩
    have hfails : (((workOff ⟨{}, "1"⟩).program ⟨nul, []⟩).run { tree := {} }).1.1.isOk = false := by
      decide +kernel
    rw [hyields] at hfails
    cases hfails

end Backlog

end EntityScaffold
