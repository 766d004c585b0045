import EntityScaffold.Proofs.Storage.OneFile
import EntityScaffold.Proofs.Storage.Untouched

/-!
# Making a directory

Making sure that a directory is there either succeeds, and then the path leads to a directory, or it
fails because something stands in the way, and then it fails ever after.  It touches no file.

* `Rooted` — a path leads to a directory; `Blocked` — it cannot be made to.
* `Reaches` — what a task comes to from a tree, whatever its state.
* `reaches_ensureDirectory` — either a directory that is there or a path that is blocked.
-/

set_option autoImplicit false

namespace EntityScaffold

open Text

namespace Path

/-- The path of an entry of a directory. -/
def entry (p : Path) (name : Text) : Path := { p with parts := p.parts ++ [name] }

variable {p : Path} {name : Text}

theorem eq_entry (h : p.parts ≠ []) : p = p.parent.entry p.name := by
  obtain ⟨parts, last, hparts⟩ := List.eq_nil_or_concat p.parts |>.resolve_left h
  rw [List.concat_eq_append] at hparts
  obtain ⟨root, _⟩ := p
  subst hparts
  simp [entry, parent, Path.name]

theorem joinWith_concat (ps : List Text) (name : Text) :
    joinWith ['/'] (ps ++ [name]) =
      (if ps = [] then [] else joinWith ['/'] ps ++ ['/']) ++ name := by
  induction ps with
  | nil => simp [joinWith]
  | cons q ps ih =>
    cases ps with
    | nil => simp [joinWith]
    | cons r ps => simpa [joinWith] using ih

/-- What stands before the name of an entry. -/
def lead (p : Path) : Text :=
  p.root ++ (if p.parts = [] then [] else joinWith ['/'] p.parts ++ ['/'])

theorem text_entry (p : Path) (name : Text) : (p.entry name).text = p.lead ++ name := by
  rw [text, entry]
  simp [joinWith_concat, lead]

/-- The text of a path is a point, or what stands before its entries, perhaps without a slash. -/
theorem text_eq_lead (p : Path) :
    p.text = "." ∧ p.lead = [] ∨ p.lead = p.text ∨ p.lead = p.text ++ ['/'] := by
  rw [text, lead]
  by_cases hroot : p.root = [] <;> by_cases hparts : p.parts = [] <;> simp [hroot, hparts, joinWith]

theorem hasNul_entry (p : Path) (name : Text) :
    (p.entry name).hasNul = (p.hasNul || name.contains '\x00') := by
  have hlead : p.lead.contains '\x00' = p.text.contains '\x00' := by
    rcases text_eq_lead p with ⟨htext, hlead⟩ | hlead | hlead
    · rw [htext, hlead]
      decide
    · rw [hlead]
    · rw [hlead, Bool.eq_iff_iff]
      simp
  rw [hasNul, text_entry, hasNul, ← hlead, Bool.eq_iff_iff]
  simp

/-- The path of an entry is no shorter. -/
theorem length_entry (h : Storage.Tree.longestPath < (encode p.text).length) (name : Text) :
    Storage.Tree.longestPath < (encode (p.entry name).text).length := by
  have hlead : Storage.Tree.longestPath < (encode p.lead).length := by
    rcases text_eq_lead p with ⟨htext, -⟩ | hlead | hlead
    · rw [htext] at h
      exact absurd h (by decide)
    · rwa [hlead]
    · rw [hlead, encode, List.flatMap_append, List.length_append]
      exact Nat.lt_of_lt_of_le h (Nat.le_add_right _ _)
  rw [text_entry, encode, List.flatMap_append, List.length_append]
  exact Nat.lt_of_lt_of_le hlead (Nat.le_add_right _ _)

end Path

namespace Storage

open Storage.Task

/-! ## Places of directories -/

/-- The path leads to the directory `d`. -/
structure Rooted (p : Path) (d : Place) (t : Tree) : Prop where
  locate : t.locate p = .ok d
  directory : t.entryAt d = some .directory

/-- Something stands where the path leads, or on the way there. -/
def Blocked (p : Path) (t : Tree) : Prop :=
  (∃ cause, t.locate p = .error cause ∧ cause ≠ .notFound) ∨
    ∃ place bytes, t.locate p = .ok place ∧ t.entryAt place = some (.file bytes)

section

variable {p : Path} {d : Place} {t t' : Tree} {name : Text} {cause : OsCause}

theorem Rooted.firm (h : Rooted p d t) (hfirm : Firm t t') : Rooted p d t' :=
  ⟨hfirm.locate_eq h.locate, hfirm d h.directory⟩

/-- An entry of a directory is found by its name once the directory is found. -/
theorem locate_entry (hnul : (p.entry name).hasNul = false)
    (hlong : ¬ Tree.longestPath < (encode (p.entry name).text).length) :
    t.locate (p.entry name) = t.locate p >>= fun d => t.follow d name := by
  have hnul' : p.hasNul = false := by
    rw [Path.hasNul_entry, Bool.or_eq_false_iff] at hnul
    exact hnul.1
  have hlong' : ¬ Tree.longestPath < (encode p.text).length := fun h => hlong (Path.length_entry h _)
  rw [Tree.locate, hnul, if_neg Bool.false_ne_true, if_neg hlong, Tree.locate, hnul',
    if_neg Bool.false_ne_true, if_neg hlong', Path.entry, List.foldlM_append]
  simp only [List.foldlM_cons, List.foldlM_nil, bind_pure]

theorem locate_eq_nameTooLong (hnul : p.hasNul = false)
    (hlong : Tree.longestPath < (encode p.text).length) : t.locate p = .error .nameTooLong := by
  rw [Tree.locate, hnul, if_neg Bool.false_ne_true, if_pos hlong]

/-- What stands in the way of a directory stands in the way of its entries. -/
theorem Blocked.locate_entry (h : Blocked p t) (hnul : (p.entry name).hasNul = false) :
    ∃ cause, t.locate (p.entry name) = .error cause ∧ cause ≠ .notFound := by
  by_cases hlong : Tree.longestPath < (encode (p.entry name).text).length
  · exact ⟨.nameTooLong, locate_eq_nameTooLong hnul hlong, by decide⟩
  · rw [Storage.locate_entry hnul hlong]
    rcases h with ⟨cause, hcause, hne⟩ | ⟨place, bytes, hplace, hfile⟩
    · exact ⟨cause, by rw [hcause]; rfl, hne⟩
    · refine ⟨.notADirectory, ?_, by decide⟩
      rw [hplace]
      simp [bind, Except.bind, Tree.follow, hfile]

theorem Blocked.entry (h : Blocked p t) (hnul : (p.entry name).hasNul = false) :
    Blocked (p.entry name) t :=
  .inl (h.locate_entry hnul)

theorem Blocked.read_ne_ok (h : Blocked p t) (hnul : (p.entry name).hasNul = false)
    (bytes : Bytes) : t.read (p.entry name) ≠ .ok bytes := by
  intro hread
  obtain ⟨place, hplace, -⟩ := read_eq_ok.mp hread
  obtain ⟨cause, hcause, -⟩ := h.locate_entry hnul
  rw [hplace] at hcause
  cases hcause

theorem makeDir_of_rooted (h : Rooted p d t) : t.makeDir p = .error .exists := by
  simp [Tree.makeDir, Tree.look, h.locate, h.directory, bind, Except.bind, pure, Except.pure]

theorem rooted_of_makeDir (h : t.makeDir p = .ok t') : ∃ d, Rooted p d t' := by
  obtain ⟨place, hplace, hnone, rfl⟩ := makeDir_eq_ok.mp h
  have hdir : t.entryAt place ≠ some .directory := by simp [hnone]
  exact ⟨place, (firm_set _ hdir).locate_eq hplace, entryAt_set_self _ hdir⟩

/-- Where a path is blocked, no directory is made. -/
theorem makeDir_of_blocked (h : Blocked p t) :
    ∃ cause, t.makeDir p = .error cause ∧ cause ≠ .notFound := by
  rcases h with ⟨cause, hcause, hne⟩ | ⟨place, bytes, hplace, hfile⟩
  · exact ⟨cause, by rw [Tree.makeDir, Tree.look, hcause]; rfl, hne⟩
  · refine ⟨.exists, ?_, by decide⟩
    simp [Tree.makeDir, Tree.look, hplace, hfile, bind, Except.bind, pure, Except.pure]

/-- A directory that cannot be made although its parent is there is there already, or blocked. -/
theorem of_makeDir_error (h : t.makeDir p = .error cause) (hne : cause ≠ .notFound) :
    (∃ d, Rooted p d t) ∨ Blocked p t := by
  cases hp : t.locate p with
  | error c =>
    rw [Tree.makeDir, Tree.look, hp] at h
    cases h
    exact .inr (.inl ⟨_, hp, hne⟩)
  | ok place =>
    rcases he : t.entryAt place with _ | _ | bytes
    · simp [Tree.makeDir, Tree.look, hp, he, bind, Except.bind, pure, Except.pure] at h
    · exact .inl ⟨place, hp, he⟩
    · exact .inr (.inr ⟨place, bytes, hp, he⟩)

/-- The entries of a directory that is there can be made, or are there, or are blocked. -/
theorem makeDir_entry_ne_notFound (h : Rooted p d t) (hnul : (p.entry name).hasNul = false) :
    t.makeDir (p.entry name) ≠ .error .notFound := by
  have hlocate : t.locate (p.entry name) ≠ .error .notFound := by
    by_cases hlong : Tree.longestPath < (encode (p.entry name).text).length
    · simp [locate_eq_nameTooLong hnul hlong]
    · rw [locate_entry hnul hlong, h.locate]
      simp only [bind, Except.bind, Tree.follow, h.directory]
      split
      · simp
      · split <;> simp
  intro he
  cases hp : t.locate (p.entry name) with
  | error c =>
    rw [Tree.makeDir, Tree.look, hp] at he
    cases he
    exact hlocate hp
  | ok place =>
    rcases hentry : t.entryAt place with _ | _ | bytes <;>
      simp [Tree.makeDir, Tree.look, hp, hentry, bind, Except.bind, pure, Except.pure] at he

end

/-! ## What a task comes to -/

section

variable {σ α β : Type} {t : Task σ α} {k : α → Task σ β} {s s' : σ} {w w' : World} {a : α}

theorem run_bind_of_ok (h : (t.program s).run w = ((.ok a, s'), w')) :
    ((t >>= k).program s).run w = ((k a).program s').run w' := by
  rw [program_bind, Program.run_bind, h]

theorem Task.Yields.bind {b : β} {s'' : σ} {w'' : World} (h : Yields t s w a s' w')
    (hk : Yields (k a) s' w' b s'' w'') : Yields (t >>= k) s w b s'' w'' :=
  (run_bind_of_ok h).trans hk

theorem run_bind_of_error {e : Failure} (h : (t.program s).run w = ((.error e, s'), w')) :
    ((t >>= k).program s).run w = ((.error e, s'), w') := by
  rw [program_bind, Program.run_bind, h]
  rfl

end

/-- From the tree `t` the task comes to `r` and leaves the tree `t'`, whatever its state. -/
def Reaches (k : ∀ σ, Task σ Unit) (t : Tree) (r : Except Failure Unit) (t' : Tree) : Prop :=
  ∀ (σ : Type) (s : σ) (w : World), w.tree = t →
    ∃ w', ((k σ).program s).run w = ((r, s), w') ∧ w'.tree = t'

section

variable {p : Path} {d : Place} {t t' t'' : Tree} {r : Except Failure Unit} {cause : OsCause}

theorem Reaches.unique {k : ∀ σ, Task σ Unit} {r' : Except Failure Unit} (h : Reaches k t r t')
    (h' : Reaches k t r' t'') : t' = t'' := by
  obtain ⟨w, hrun, rfl⟩ := h Unit () { tree := t } rfl
  obtain ⟨w', hrun', rfl⟩ := h' Unit () { tree := t } rfl
  rw [hrun] at hrun'
  cases hrun'
  rfl

theorem Reaches.pure (t : Tree) : Reaches (fun _ => pure ()) t (.ok ()) t :=
  fun _ _ w h => ⟨w, rfl, h⟩

theorem Reaches.bind {k k' : ∀ σ, Task σ Unit} (h : Reaches k t (.ok ()) t')
    (h' : Reaches k' t' r t'') : Reaches (fun σ => k σ >>= fun _ => k' σ) t r t'' := by
  intro σ s w hw
  obtain ⟨w', hrun, hw'⟩ := h σ s w hw
  obtain ⟨w'', hrun', hw''⟩ := h' σ s w' hw'
  exact ⟨w'', by rw [run_bind_of_ok hrun, hrun'], hw''⟩

theorem Reaches.bind_error {k k' : ∀ σ, Task σ Unit} {e : Failure} (h : Reaches k t (.error e) t') :
    Reaches (fun σ => k σ >>= fun _ => k' σ) t (.error e) t' := by
  intro σ s w hw
  obtain ⟨w', hrun, hw'⟩ := h σ s w hw
  exact ⟨w', by rw [run_bind_of_error hrun], hw'⟩

theorem Reaches.makeDir_ok {k : ∀ σ, Except OsError Unit → Task σ Unit} (hp : t.makeDir p = .ok t')
    (h : Reaches (fun σ => k σ (.ok ())) t' r t'') :
    Reaches (fun σ => perform (.makeDir p) >>= k σ) t r t'' := by
  rintro σ s w rfl
  have hop : (Operation.makeDir p).run w = (.ok (), { w with tree := t' }) := by
    rw [Operation.run, hp]
    rfl
  obtain ⟨w'', hrun, hw''⟩ := h σ s { w with tree := t' } rfl
  refine ⟨w'', ?_, hw''⟩
  rw [← hrun]
  change Program.run ((k σ ((Operation.makeDir p).run w).1).program s)
    ((Operation.makeDir p).run w).2 = _
  rw [hop]

theorem Reaches.makeDir_error {k : ∀ σ, Except OsError Unit → Task σ Unit}
    (hp : t.makeDir p = .error cause)
    (h : Reaches (fun σ => k σ (.error (failAt p cause))) t r t'') :
    Reaches (fun σ => perform (.makeDir p) >>= k σ) t r t'' := by
  rintro σ s w rfl
  have hop : (Operation.makeDir p).run w = (.error (failAt p cause), w) := by
    rw [Operation.run, hp]
    rfl
  obtain ⟨w'', hrun, hw''⟩ := h σ s w rfl
  refine ⟨w'', ?_, hw''⟩
  rw [← hrun]
  change Program.run ((k σ ((Operation.makeDir p).run w).1).program s)
    ((Operation.makeDir p).run w).2 = _
  rw [hop]

/-- Whether a path leads to a directory is told, or the error of asking. -/
theorem run_isDirectory {σ : Type} (s : σ) (w : World) :
    ((isDirectory p).program s).run w = match kindOf (w.tree.look p) with
      | .ok kind => ((.ok (decide (kind = some .directory)), s), w)
      | .error cause => ((.error (.os (failAt p cause)), s), w) := by
  rw [isDirectory, kindAt]
  change Program.run (((orOsError ((Operation.kind p).run w).1 : Task σ (Option Kind)) >>=
    fun kind => Pure.pure (decide (kind = some .directory))).program s)
      ((Operation.kind p).run w).2 = _
  rw [Operation.run]
  cases kindOf (w.tree.look p) <;> rfl

/-- A directory that is there is accepted. -/
theorem reaches_unlessDirectory (h : Rooted p d t) (e : OsError) :
    Reaches (fun _ => unlessDirectory p e) t (.ok ()) t := by
  rintro σ s w rfl
  have hkind : kindOf (w.tree.look p) = .ok (some .directory) := by
    simp [Tree.look, h.locate, h.directory, bind, Except.bind, pure, Except.pure, kindOf]
  have hrun := run_isDirectory (p := p) s w
  rw [hkind] at hrun
  refine ⟨w, ?_, rfl⟩
  change ((unlessDirectory p e).program s).run w = _
  rw [unlessDirectory, run_bind_of_ok hrun]
  rfl

/-- Where a path is blocked no directory is accepted. -/
theorem blocked_unlessDirectory (h : Blocked p t) {e : OsError} (he : e.cause ≠ .nulInPath) :
    ∃ e' : OsError, e'.cause ≠ .nulInPath ∧
      Reaches (fun _ => unlessDirectory p e) t (.error (.os e')) t := by
  cases hkind : kindOf (t.look p) with
  | ok kind =>
    have hother : kind ≠ some .directory := by
      rintro rfl
      rcases h with ⟨cause, hcause, -⟩ | ⟨place, bytes, hplace, hfile⟩
      · rw [Tree.look, hcause] at hkind
        cases cause <;> cases hkind
      · simp [Tree.look, hplace, hfile, bind, Except.bind, pure, Except.pure, kindOf] at hkind
    refine ⟨e, he, ?_⟩
    rintro σ s w rfl
    have hrun := run_isDirectory (p := p) s w
    rw [hkind] at hrun
    refine ⟨w, ?_, rfl⟩
    change ((unlessDirectory p e).program s).run w = _
    rw [unlessDirectory, run_bind_of_ok hrun, decide_eq_false hother]
    rfl
  | error cause =>
    refine ⟨failAt p cause, fun hc => kindOf_ne_nul (t.look p) (hkind.trans (congrArg _ hc)), ?_⟩
    rintro σ s w rfl
    have hrun := run_isDirectory (p := p) s w
    rw [hkind] at hrun
    refine ⟨w, ?_, rfl⟩
    change ((unlessDirectory p e).program s).run w = _
    rw [unlessDirectory, run_bind_of_error hrun]

/-! ## What an attempt comes to -/

/-- Making sure of a directory either succeeds, and it is there, or fails, and it is blocked. -/
def Attempts (k : ∀ σ, Task σ Unit) (p : Path) (t : Tree) : Prop :=
  ∃ t', Untouched t t' ∧ ((∃ d, Rooted p d t' ∧ Reaches k t (.ok ()) t') ∨
    Blocked p t' ∧ ∃ e : OsError, e.cause ≠ .nulInPath ∧ Reaches k t (.error (.os e)) t')

theorem attempts_unlessDirectory (hnul : p.hasNul = false) (hp : t.makeDir p = .error cause)
    (hne : cause ≠ .notFound) :
    Attempts (fun _ => unlessDirectory p (failAt p cause)) p t := by
  refine ⟨t, .refl t, ?_⟩
  rcases of_makeDir_error hp hne with ⟨d, hd⟩ | hblocked
  · exact .inl ⟨d, hd, reaches_unlessDirectory hd _⟩
  · exact .inr ⟨hblocked, blocked_unlessDirectory hblocked fun h =>
      makeDir_ne_nul hnul (hp.trans (congrArg _ h))⟩

/-- Makes a directory if its parent is there. -/
def makeLast {σ : Type} (p : Path) (missing : OsError → Task σ Unit) : Task σ Unit := do
  match ← perform (.makeDir p) with
  | .ok () => return
  | .error e => if e.cause = .notFound then missing e else unlessDirectory p e

theorem Reaches.makeLast_missing {missing : ∀ σ, OsError → Task σ Unit}
    (hm : t.makeDir p = .error .notFound)
    (h : Reaches (fun σ => missing σ (failAt p .notFound)) t r t') :
    Reaches (fun σ => makeLast p (missing σ)) t r t' :=
  .makeDir_error hm h

theorem Reaches.makeLast {missing : ∀ σ, OsError → Task σ Unit}
    (h : Reaches (fun _ => unlessDirectory p (failAt p cause)) t r t')
    (hm : t.makeDir p = .error cause) (hne : cause ≠ .notFound) :
    Reaches (fun σ => Storage.makeLast p (missing σ)) t r t' := by
  refine .makeDir_error hm ?_
  have hif : ∀ σ, (if (failAt p cause).cause = .notFound then missing σ (failAt p cause) else
      unlessDirectory p (failAt p cause)) = unlessDirectory p (failAt p cause) :=
    fun σ => if_neg hne
  simpa only [hif] using h

/-- A directory whose parent is there. -/
theorem attempts_makeLast (hnul : p.hasNul = false) (hp : t.makeDir p ≠ .error .notFound)
    {missing : ∀ σ, OsError → Task σ Unit} :
    Attempts (fun σ => makeLast p (missing σ)) p t := by
  cases hm : t.makeDir p with
  | ok t' =>
    obtain ⟨d, hd⟩ := rooted_of_makeDir hm
    exact ⟨t', untouched_makeDir hm, .inl ⟨d, hd, .makeDir_ok hm (.pure t')⟩⟩
  | error cause =>
    have hne : cause ≠ .notFound := fun h => hp (h ▸ hm)
    obtain ⟨t', huntouched, ⟨d, hd, h⟩ | ⟨hblocked, e, he, h⟩⟩ :=
      attempts_unlessDirectory hnul hm hne
    · exact ⟨t', huntouched, .inl ⟨d, hd, h.makeLast hm hne⟩⟩
    · exact ⟨t', huntouched, .inr ⟨hblocked, e, he, h.makeLast hm hne⟩⟩

/-- A path without components is there. -/
theorem makeDir_root_ne_notFound (hparts : p.parts = []) (hnul : p.hasNul = false) :
    t.makeDir p ≠ .error .notFound := by
  by_cases hlong : Tree.longestPath < (encode p.text).length
  · rw [Tree.makeDir, Tree.look, locate_eq_nameTooLong hnul hlong]
    simp [bind, Except.bind]
  · have hrooted : Rooted p (if p.root = [] then [] else Tree.outside) t := by
      constructor
      · rw [Tree.locate, hnul, if_neg Bool.false_ne_true, if_neg hlong, hparts]
        rfl
      · split <;> exact Tree.entryAt_of_isFixed t (by decide)
    simp [makeDir_of_rooted hrooted]

theorem makeDirs_zero (σ : Type) (p : Path) :
    (makeDirs 0 p : Task σ Unit) = makeLast p fun e => throw (.os e) := by
  rw [makeDirs]
  rfl

theorem makeDirs_succ (σ : Type) (depth : Nat) (p : Path) :
    (makeDirs (depth + 1) p : Task σ Unit) = makeLast p fun _ =>
      makeDirs depth p.parent >>= fun _ => makeLast p fun e => throw (.os e) := by
  rw [makeDirs]
  rfl

/-- **Making a directory and all that lead to it.** -/
theorem attempts_makeDirs {depth : Nat} (hdepth : p.parts.length ≤ depth) (hnul : p.hasNul = false)
    (t : Tree) : Attempts (fun _ => makeDirs depth p) p t := by
  induction depth generalizing p t with
  | zero =>
    have hparts : p.parts = [] := List.length_eq_zero_iff.mp (Nat.le_zero.mp hdepth)
    simp only [makeDirs_zero]
    exact attempts_makeLast hnul (makeDir_root_ne_notFound hparts hnul)
  | succ depth ih =>
    simp only [makeDirs_succ]
    by_cases hm : t.makeDir p = .error .notFound
    · have hparts : p.parts ≠ [] := fun h => makeDir_root_ne_notFound h hnul hm
      have hentry := Path.eq_entry hparts
      have hnulEntry : (p.parent.entry p.name).hasNul = false := hentry ▸ hnul
      have hnulParent : p.parent.hasNul = false := by
        rw [Path.hasNul_entry, Bool.or_eq_false_iff] at hnulEntry
        exact hnulEntry.1
      have hdepthParent : p.parent.parts.length ≤ depth := by
        rw [Path.parent, List.length_dropLast]
        omega
      obtain ⟨t₁, huntouched, ⟨d, hd, hparent⟩ | ⟨hblocked, e, he, hparent⟩⟩ :=
        ih hdepthParent hnulParent t
      · -- the parent is there now
        have hne : t₁.makeDir p ≠ .error .notFound := by
          rw [hentry]
          exact makeDir_entry_ne_notFound hd hnulEntry
        obtain ⟨t₂, huntouched', ⟨d, hd, h⟩ | ⟨hblocked, e, he, h⟩⟩ := attempts_makeLast hnul hne
        · exact ⟨t₂, huntouched.trans huntouched',
            .inl ⟨d, hd, Reaches.makeLast_missing hm (hparent.bind h)⟩⟩
        · exact ⟨t₂, huntouched.trans huntouched',
            .inr ⟨hblocked, e, he, Reaches.makeLast_missing hm (hparent.bind h)⟩⟩
      · have hblocked : Blocked p t₁ := by
          rw [hentry]
          exact hblocked.entry hnulEntry
        exact ⟨t₁, huntouched,
          .inr ⟨hblocked, e, he, Reaches.makeLast_missing hm hparent.bind_error⟩⟩
    · exact attempts_makeLast hnul hm

theorem Reaches.record (level : Log.Level) (topic : Log.Topic) (message : Text) (t : Tree) :
    Reaches (fun _ => Task.record level topic message) t (.ok ()) t :=
  fun _ _ _ h => ⟨_, rfl, h⟩

/-- **Making sure of a directory** either succeeds, and it is there, or fails, and it is blocked. -/
theorem attempts_ensureDirectory (hnul : p.hasNul = false) (t : Tree) :
    Attempts (fun _ => ensureDirectory p) p t := by
  obtain ⟨t', huntouched, ⟨d, hd, h⟩ | ⟨hblocked, e, he, h⟩⟩ :=
    attempts_makeDirs (Nat.le_refl _) hnul t
  · exact ⟨t', huntouched, .inl ⟨d, hd, h.bind (.record _ _ _ t')⟩⟩
  · exact ⟨t', huntouched, .inr ⟨hblocked, e, he, h.bind_error⟩⟩

theorem Reaches.makeDirs (h : Reaches (fun _ => unlessDirectory p (failAt p cause)) t r t')
    (hm : t.makeDir p = .error cause) (hne : cause ≠ .notFound) (depth : Nat) :
    Reaches (fun _ => Storage.makeDirs depth p) t r t' := by
  cases depth with
  | zero =>
    simp only [makeDirs_zero]
    exact h.makeLast hm hne
  | succ depth =>
    simp only [makeDirs_succ]
    exact h.makeLast hm hne

/-- A directory that is there is left as it is. -/
theorem Rooted.reaches (h : Rooted p d t) : Reaches (fun _ => ensureDirectory p) t (.ok ()) t :=
  ((reaches_unlessDirectory h _).makeDirs (makeDir_of_rooted h) (by decide) _).bind
    (.record _ _ _ t)

/-- **What is blocked stays blocked.** -/
theorem Blocked.reaches (h : Blocked p t) (hnul : p.hasNul = false) :
    ∃ e : OsError, e.cause ≠ .nulInPath ∧
      Reaches (fun _ => ensureDirectory p) t (.error (.os e)) t := by
  obtain ⟨cause, hm, hne⟩ := makeDir_of_blocked h
  have hcause : (failAt p cause).cause ≠ .nulInPath :=
    fun hc => makeDir_ne_nul hnul (hm.trans (congrArg _ hc))
  obtain ⟨e, he, hreaches⟩ := blocked_unlessDirectory h hcause
  exact ⟨e, he, (hreaches.makeDirs hm hne _).bind_error⟩

end

/-- The tree in which it has been tried to make the directory of entities. -/
def Store.prepared (st : Store) (t : Tree) : Tree :=
  (((ensureDirectory st.config.entityDir : Task Unit Unit).program ()).run { tree := t }).2.tree

theorem Reaches.prepared {st : Store} {t t' : Tree} {r : Except Failure Unit}
    (h : Reaches (fun _ => ensureDirectory st.config.entityDir) t r t') : st.prepared t = t' := by
  obtain ⟨w, hrun, hw⟩ := h Unit () { tree := t } rfl
  rw [Store.prepared, hrun, hw]

section

variable {σ ρ : Type} {view : σ → ρ} {before after failed : Between} {k : ∀ σ, Task σ Unit}

/-- A task that reaches trees that are related agrees with itself. -/
theorem agrees_of_reaches (h : ∀ t t', before t t' → ∃ m m', Reaches k t (.ok ()) m ∧
      Reaches k t' (.ok ()) m' ∧ after m m') :
    Agrees view before after failed (k σ) (k σ) := by
  intro s s' w w' hview hbefore
  obtain ⟨m, m', hm, hm', hafter⟩ := h _ _ hbefore
  obtain ⟨v, hrun, rfl⟩ := hm σ s w rfl
  obtain ⟨v', hrun', rfl⟩ := hm' σ s' w' rfl
  rw [hrun, hrun']
  exact .ok () hview hafter

theorem agrees_of_reaches_error (h : ∀ t t', before t t' → ∃ (e e' : OsError) (m m' : Tree),
      e.cause ≠ .nulInPath ∧ e'.cause ≠ .nulInPath ∧ Reaches k t (.error (.os e)) m ∧
        Reaches k t' (.error (.os e')) m' ∧ failed m m') :
    Agrees view before after failed (k σ) (k σ) := by
  intro s s' w w' hview hbefore
  obtain ⟨e, e', m, m', he, he', hm, hm', hfailed⟩ := h _ _ hbefore
  obtain ⟨v, hrun, rfl⟩ := hm σ s w rfl
  obtain ⟨v', hrun', rfl⟩ := hm' σ s' w' rfl
  rw [hrun, hrun']
  exact .error (decide_eq_true he) (decide_eq_true he') hview hfailed

end

end Storage

end EntityScaffold
