import EntityScaffold.Proofs.Source.Pieces
import EntityScaffold.Proofs.Storage.Tasks
import EntityScaffold.Storage.Store

/-!
# What the store does to files

A file that has been saved is read back, and the store leaves the files of other entities alone.

* `besides` — the files that are written to be moved.
* `Yields.of_writeText` — a file that has been written holds the text.
* `Store.apart_pathFor`, `Store.apart_lockPathFor` — the store's paths are apart from the files of
  other entities.
* `Store.Yields.of_save`, `Store.Yields.of_withLock` — saving, and working behind a lock.
-/

set_option autoImplicit false

namespace EntityScaffold.Storage

open Text Source

/-! ## Names of files -/

/-- The file beside `p` that is written to be moved there. -/
def besides (p : Path) (k : Nat) : Path :=
  { p.parent with parts := p.parent.parts ++ [temporaryName p.name k] }

/-- Two texts with endings of the same length and not the same. -/
theorem append_ne_append {s t a b : Text} (hlength : a.length = b.length) (h : a ≠ b) :
    s ++ a ≠ t ++ b := fun he => h (List.append_inj_right' he hlength)

theorem apart_of_parts {n name : Text} {root : Text} {parts : List Text} (hname : name ≠ n)
    (hlength : 2 < name.length) : Apart n ⟨root, parts ++ [name]⟩ := by
  refine ⟨?_, ?_⟩
  · have hdots : name ≠ ['.', '.'] := by
      rintro rfl
      exact absurd hlength (by decide)
    simpa [Path.endsInName] using hdots
  · simpa [Path.name] using hname

/-- No file written to be moved is a source file. -/
theorem apart_besides (n : Text) (p : Path) (k : Nat) : Apart (n ++ ".php") (besides p k) := by
  refine apart_of_parts ?_ ?_
  · exact append_ne_append (by decide) (by decide)
  · simp only [temporaryName, List.length_append]
    have htail : (".tmp" : Text).length = 4 := rfl
    omega

/-- A name without slashes is one component of a path. -/
theorem child_eq {p : Path} {t : Text} (hslash : '/' ∉ t) (hlength : 2 < t.length) :
    p.child t = ⟨p.root, p.parts ++ [t]⟩ := by
  have hempty : t ≠ [] := by
    rintro rfl
    exact absurd hlength (by decide)
  have hdot : t ≠ ['.'] := by
    rintro rfl
    exact absurd hlength (by decide)
  have hnone : t.takeWhile (· == '/') = [] := by
    cases t with
    | nil => rfl
    | cons c t =>
      have hc : c ≠ '/' := fun h => hslash (h ▸ List.mem_cons_self)
      simp [hc]
  have hof : Path.ofText t = ⟨[], [t]⟩ := by
    rw [Path.ofText, hnone, splitAt_of_notMem hslash]
    simp [hempty, hdot]
  rw [Path.child, hof]
  rfl

/-- The first free name is one of those there are. -/
theorem exists_freshFrom (taken : List Text) (name : Text) (fuel n : Nat) :
    ∃ k, freshFrom taken name fuel n = temporaryName name k := by
  induction fuel generalizing n with
  | zero => exact ⟨n, rfl⟩
  | succ fuel ih =>
    rw [freshFrom]
    split
    · exact ih (n + 1)
    · exact ⟨n, rfl⟩

/-! ## What reading and writing keeps -/

open Storage.Task

variable {σ ρ α : Type}

section

variable {on : Path → Prop} {view : σ → ρ}

theorem keeps_kindAt (p : Path) : Keeps on view (kindAt p) :=
  Keeps.perform_bind (.kind p) trivial fun _ => .orOsError _

theorem keeps_isDirectory (p : Path) : Keeps on view (isDirectory p) :=
  (keeps_kindAt p).bind fun _ => .pure _

theorem keeps_isFile (p : Path) : Keeps on view (isFile p) :=
  (keeps_kindAt p).bind fun _ => .pure _

theorem keeps_isThere (p : Path) : Keeps on view (isThere p) :=
  (keeps_kindAt p).bind fun _ => .pure _

theorem keeps_unlessDirectory (p : Path) (e : OsError) : Keeps on view (unlessDirectory p e) := by
  refine (keeps_isDirectory p).bind fun b => ?_
  cases b
  · exact .throw _
  · exact .pure _

theorem keeps_makeDirs (depth : Nat) (p : Path) : Keeps on view (makeDirs depth p) := by
  induction depth generalizing p with
  | zero =>
    rw [makeDirs]
    refine Keeps.perform_bind (.makeDir p) trivial fun w => ?_
    split
    · exact .pure _
    · split
      · exact .throw _
      · exact keeps_unlessDirectory p _
  | succ depth ih =>
    rw [makeDirs]
    refine Keeps.perform_bind (.makeDir p) trivial fun w => ?_
    split
    · exact .pure _
    · split
      · refine (ih p.parent).bind fun _ =>
          Keeps.perform_bind (.makeDir p) trivial fun w => ?_
        split
        · exact .pure _
        · split
          · exact .throw _
          · exact keeps_unlessDirectory p _
      · exact keeps_unlessDirectory p _

theorem keeps_ensureDirectory (p : Path) : Keeps on view (ensureDirectory p) :=
  (keeps_makeDirs _ p).bind fun _ => .record _ _ _

theorem keeps_replaceFile {p : Path} (hp : on p) (hbesides : ∀ k, on (besides p k))
    (bytes : Bytes) : Keeps on view (replaceFile p bytes) := by
  refine Keeps.perform_bind (.freshName p.parent p.name) trivial fun w => ?_
  obtain ⟨k, hk⟩ : ∃ k, (Operation.run (.freshName p.parent p.name) w).1 = temporaryName p.name k :=
    exists_freshFrom _ _ _ _
  rw [hk]
  have ht := hbesides k
  refine Keeps.perform_bind (.create (besides p k) []) ht fun _ =>
    Keeps.bind (.orOsError _) fun _ => ?_
  refine Keeps.bind (.attempt ?_) fun result => ?_
  · refine Keeps.perform_bind (.write (besides p k) bytes) ht fun _ =>
      Keeps.bind (.orOsError _) fun _ => ?_
    exact Keeps.perform_bind (.rename (besides p k) p) ⟨ht, hp⟩ fun _ => .orOsError _
  · cases result with
    | ok => exact .pure _
    | error e =>
      refine (keeps_isThere _).bind fun b => ?_
      cases b
      · exact .throw _
      · exact Keeps.perform_bind (.remove (besides p k)) ht fun _ =>
          Keeps.bind (.orOsError _) fun _ => .throw _

theorem keeps_writeText {p : Path} (hp : on p) (hbesides : ∀ k, on (besides p k)) (content : Text)
    (atomic : Bool) : Keeps on view (writeText p content atomic) := by
  refine (keeps_ensureDirectory p.parent).bind fun _ => ?_
  cases atomic
  · exact Keeps.perform_bind (.write p _) hp fun _ => Keeps.bind (.orOsError _) fun _ =>
      Keeps.bind (.record _ _ _) fun _ => .pure _
  · exact (keeps_replaceFile hp hbesides _).bind fun _ =>
      Keeps.bind (.record _ _ _) fun _ => .pure _

theorem keeps_readText? (p : Path) : Keeps on view (readText? p) := by
  refine Keeps.perform_bind (.read p) trivial fun w => ?_
  split
  · exact Keeps.bind (.settle _) fun _ => .pure _
  · split
    · exact .pure _
    · exact .throw _

end

/-! ## What has been saved -/

/-- A change that has succeeded has been made. -/
theorem of_change {w : World} {p : Path} {r : Except OsCause Tree} (h : .ok () = (w.change p r).1) :
    ∃ tree, r = .ok tree ∧ (w.change p r).2.tree = tree := by
  cases r with
  | error cause => cases h
  | ok tree => exact ⟨tree, rfl, rfl⟩

section

variable {s s' : σ} {w w' : World} {p : Path}

/-- What has been written is there for the rest of the task. -/
theorem Yields.of_write_bind {bytes : Bytes} {β : Type} {b : β} {k : Unit → Task σ β}
    (h : Yields (perform (.write p bytes) >>= fun r => orOsError r >>= k) s w b s' w') :
    ∃ w₁, w₁.tree.read p = .ok bytes ∧ Yields (k ()) s w₁ b s' w' := by
  obtain ⟨u, hanswer, h⟩ := Yields.of_orOsError_bind (Yields.of_perform_bind h)
  obtain ⟨tree, htree, hw⟩ := of_change hanswer.symm
  refine ⟨_, ?_, h⟩
  rw [Operation.run, hw]
  exact read_write htree

theorem Yields.of_rename {source : Path} {bytes : Bytes} {u : Unit}
    (hread : w.tree.read source = .ok bytes)
    (h : Yields (perform (.rename source p) >>= fun r => orOsError r) s w u s' w') :
    w'.tree.read p = .ok bytes := by
  obtain ⟨hanswer, -, rfl⟩ := Yields.of_orOsError (Yields.of_perform_bind h)
  rw [Operation.run] at hanswer ⊢
  cases hr : w.tree.rename source p with
  | error cause =>
    rw [hr] at hanswer
    cases hanswer
  | ok tree => exact read_rename hread hr

/-- **What has been written beside its place is read at it.** -/
theorem Yields.of_replaceFile {bytes : Bytes} {u : Unit}
    (h : Yields (replaceFile p bytes) s w u s' w') : w'.tree.read p = .ok bytes := by
  obtain ⟨_, -, h⟩ := Yields.of_orOsError_bind (Yields.of_perform_bind (Yields.of_perform_bind h))
  obtain ⟨result, s₁, w₁, hattempt, h⟩ := Yields.of_bind h
  cases result with
  | error e =>
    -- the failure is passed on
    obtain ⟨there, s₂, w₂, -, h⟩ := Yields.of_bind h
    cases there with
    | false => exact (Yields.of_throw h).elim
    | true =>
      obtain ⟨_, -, h⟩ := Yields.of_orOsError_bind (Yields.of_perform_bind h)
      exact (Yields.of_throw h).elim
  | ok =>
    obtain ⟨-, -, rfl⟩ := Yields.of_pure h
    obtain ⟨w₂, hwritten, h⟩ := Yields.of_write_bind (Yields.of_attempt hattempt)
    exact Yields.of_rename hwritten h

/-- **A file that has been written holds the text.** -/
theorem Yields.of_writeText {content : Text} {atomic : Bool} {n : Nat}
    (h : Yields (writeText p content atomic) s w n s' w') :
    w'.tree.read p = .ok (encode content) := by
  obtain ⟨_, s₁, w₁, -, h⟩ := Yields.of_bind h
  cases atomic with
  | true =>
    obtain ⟨_, s₂, w₂, hreplace, h⟩ := Yields.of_bind h
    obtain ⟨w₃, htree, h⟩ := Yields.of_record_bind h
    obtain ⟨-, -, rfl⟩ := Yields.of_pure h
    rw [htree]
    exact Yields.of_replaceFile hreplace
  | false =>
    obtain ⟨w₂, hwritten, h⟩ := Yields.of_write_bind h
    obtain ⟨w₃, htree, h⟩ := Yields.of_record_bind h
    obtain ⟨-, -, rfl⟩ := Yields.of_pure h
    rw [htree]
    exact hwritten

end

/-! ## The store -/

namespace Store

variable {st : Store}

theorem pathFor_eq {entity : Text} (h : Plain (shortName entity)) :
    st.pathFor entity =
      ⟨st.config.entityDir.root, st.config.entityDir.parts ++ [shortName entity ++ ".php"]⟩ := by
  refine child_eq ?_ ?_
  · simpa using h.notMem (d := '/') rfl
  · simp

theorem endsInName_pathFor {entity : Text} (h : Plain (shortName entity)) :
    (st.pathFor entity).endsInName = true := by
  rw [pathFor_eq h]
  exact (apart_of_parts (n := []) (by simp) (by simp)).1

theorem name_pathFor {entity : Text} (h : Plain (shortName entity)) :
    (st.pathFor entity).name = shortName entity ++ ".php" := by
  rw [pathFor_eq h]
  simp [Path.name]

/-- A lock file is no source file. -/
theorem apart_lockPathFor (n entity : Text) : Apart (n ++ ".php") (st.lockPathFor entity) := by
  refine apart_of_parts ?_ ?_
  · have hlast : (st.pathFor entity).name ++ ".lock" = ((st.pathFor entity).name ++ ".") ++ "lock" := by
      simp
    rw [hlast]
    exact append_ne_append (by decide) (by decide)
  · simp

/-- A repository's file is not that of the entity. -/
theorem apart_repositoryPathFor {entity : Text} (h : Plain (shortName entity)) :
    Apart (shortName entity ++ ".php") (st.repositoryPathFor entity) := by
  have hpath : st.repositoryPathFor entity = ⟨st.config.repositoryDir.root,
      st.config.repositoryDir.parts ++ [shortName entity ++ "Repository.php"]⟩ := by
    refine child_eq ?_ ?_
    · simpa using h.notMem (d := '/') rfl
    · simp
  rw [hpath]
  refine apart_of_parts ?_ ?_
  · simp
  · simp

section

variable {on : Path → Prop} {view : σ → ρ}

theorem keeps_read? (st : Store) (entity : Text) : Keeps on view (st.read? entity) :=
  keeps_readText? _

theorem keeps_acquire {entity : Text} (h : on (st.lockPathFor entity)) :
    Keeps on view (st.acquire entity) := by
  refine (keeps_ensureDirectory _).bind fun _ => ?_
  refine Keeps.perform_bind (.create (st.lockPathFor entity) (encode st.owner)) h fun w => ?_
  split
  · exact .record _ _ _
  · split <;> exact .throw _

theorem keeps_release {entity : Text} (h : on (st.lockPathFor entity)) :
    Keeps on view (st.release entity) := by
  refine Keeps.perform_bind (.remove (st.lockPathFor entity)) h fun w => ?_
  split
  · exact .record _ _ _
  · split
    · exact .record _ _ _
    · exact .throw _

/-- In a dry run no lock is taken. -/
theorem dryRun_of_locks (h : st.locks = true) : st.config.dryRun = false := by
  rw [locks, Bool.and_eq_true, Bool.not_eq_true'] at h
  exact h.2

theorem keeps_entities (st : Store) : Keeps on view (st.entities : Task σ (List Text)) := by
  refine (keeps_isDirectory _).bind fun b => ?_
  cases b
  · exact .pure _
  · refine Keeps.perform_bind (.names st.config.entityDir) trivial fun _ =>
      Keeps.bind (.orOsError _) fun names => ?_
    exact Keeps.bind (.filterM fun p => keeps_isFile p) fun _ => .pure _

end

section

variable {on : Path → Prop}

/-- In a dry run nothing is saved. -/
theorem keeps_save {p : Path} (h : st.config.dryRun = false → on p ∧ ∀ k, on (besides p k))
    (content : Text) : Keeps on (fun _ => ()) (st.save p content) := by
  rw [save]
  split
  · exact Keeps.bind (.record _ _ _) fun _ => .pure _
  · rename_i hdry
    obtain ⟨hp, hbesides⟩ := h (Bool.eq_false_iff.mpr hdry)
    refine (keeps_writeText hp hbesides content _).bind fun _ => ?_
    exact Keeps.bind (.modify fun _ => rfl) fun _ =>
      Keeps.bind (.record _ _ _) fun _ => .pure _

theorem keeps_writeRepository {entity : Text} (h : st.config.dryRun = false →
      on (st.repositoryPathFor entity) ∧ ∀ k, on (besides (st.repositoryPathFor entity) k))
    (content : Text) : Keeps on (fun _ => ()) (st.writeRepository entity content) := by
  refine (keeps_isThere _).bind fun b => ?_
  cases b
  · exact (keeps_save h content).bind fun _ => .pure _
  · exact Keeps.bind (.record _ _ _) fun _ => .pure _

end

/-- **What has been saved is read back.** -/
theorem of_save (hdry : st.config.dryRun = false) {p q : Path} {content : Text}
    {written written' : Written} {w w' : World}
    (h : Yields (st.save p content) written w q written' w') :
    w'.tree.read p = .ok (encode content) := by
  rw [save, hdry] at h
  obtain ⟨n, _, w₁, hwrite, h⟩ := Yields.of_bind h
  have hrest := Yields.of_modify_bind h
  obtain ⟨w₂, htree, hrest⟩ := Yields.of_record_bind hrest
  obtain ⟨-, -, rfl⟩ := Yields.of_pure hrest
  rw [htree]
  exact Yields.of_writeText hwrite

/-- A task behind a lock has been performed, and giving the lock back keeps the source files. -/
theorem of_withLock {entity : Text} {t : Task σ α} {a : α} {s s' : σ} {w w' : World}
    (h : Yields (st.withLock entity t) s w a s' w') :
    ∃ w₁ w₂, Yields t s w₁ a s' w₂ ∧ ∀ n, Kept (n ++ ".php") w₂.tree w'.tree := by
  rw [withLock] at h
  split at h
  · obtain ⟨_, s₁, w₁, hacquire, h⟩ := Yields.of_bind h
    obtain ⟨s₂, w₂, ht, hrelease⟩ := Yields.of_andFinally h
    have hfirst : Keeps (fun _ => True) (fun s : σ => s) (st.acquire entity) :=
      keeps_acquire trivial
    have hlast : ∀ n, Keeps (Apart (n ++ ".php")) (fun s : σ => s) (st.release entity) :=
      fun n => keeps_release (apart_lockPathFor n entity)
    have hs₁ : s₁ = s := hfirst.view_eq hacquire
    have hs₂ : s' = s₂ := (hlast []).view_eq hrelease
    rw [hs₁, ← hs₂] at ht
    exact ⟨w₁, w₂, ht, fun n => (hlast n).kept hrelease⟩
  · exact ⟨w, w', h, fun n => .refl _ _⟩

end Store

end EntityScaffold.Storage
