import EntityScaffold.Proofs.Storage.Following

/-!
# What the store does with what is in hand

One lemma for each task of the store: which moves it makes, and what is in hand when it has ended,
well or not.

* `Uneventful` — nothing has changed, and what went wrong is an error of the file system.
* `follows_readText?` — a file that is locked and read is known.
* `Hand.Goes` — the files that a run has written between two times at which it is writing none.
* `follows_replaceFile`, `Store.follows_save` — a file has been written, or nothing has been done.
* `Store.follows_withLock` — a lock is given back in any case.
* `Store.follows_writeRepository` — a stub has been written, or one is there.
-/

set_option autoImplicit false

namespace EntityScaffold

open Text

/-- The failure is an error of the file system. -/
def Failure.IsOs (e : Failure) : Prop := ∃ x, e = .os x

namespace Storage

open Storage.Task

variable {σ α β : Type} {R : Rules} {h : Hand} {s : σ}

/-! ## Directories -/

/-- The state and what is in hand are as before, and what went wrong is an error of the file
system. -/
def Uneventful (s : σ) (h : Hand) (r : Except Failure α) (s' : σ) (h' : Hand) : Prop :=
  s' = s ∧ h.Unmoved h' ∧ ∀ e, r = .error e → e.IsOs

theorem Uneventful.ok {h' : Hand} (H : h.Unmoved h') (a : α) : Uneventful s h (.ok a) s h' :=
  ⟨rfl, H, fun _ he => nomatch he⟩

theorem Uneventful.os {h' : Hand} (H : h.Unmoved h') (x : OsError) :
    Uneventful s h (.error (.os x) : Except Failure α) s h' := by
  refine ⟨rfl, H, fun e he => ?_⟩
  cases he
  exact ⟨x, rfl⟩

/-- An uneventful task, and one that goes on with its result. -/
theorem Uneventful.bind {t : Task σ α} {k : α → Task σ β} {g : Hand}
    (ht : Follows R t s h (Uneventful s g))
    (hk : ∀ a h', g.Unmoved h' → Follows R (k a) s h' (Uneventful s g)) :
    Follows R (t >>= k) s h (Uneventful s g) := by
  refine Follows.bind ht (fun a s' h' hmid => ?_) fun e s' h' hmid => ?_
  · obtain ⟨rfl, hmoved, -⟩ := hmid
    exact hk a h' hmoved
  · obtain ⟨rfl, hmoved, hos⟩ := hmid
    refine ⟨rfl, hmoved, fun e' he => ?_⟩
    cases he
    exact hos e rfl

theorem follows_isDirectory (p : Path) {g : Hand} (hg : g.Unmoved h) :
    Follows R (isDirectory p) s h (Uneventful s g) :=
  Uneventful.bind (Follows.perform_bind fun _ _ => ⟨h, .look trivial,
    Follows.orOsError (fun _ _ => .ok hg _) fun e _ => .os hg e⟩) fun _ _ hh =>
      Follows.pure (.ok hh _)

theorem follows_unlessDirectory (p : Path) (e : OsError) {g : Hand} (hg : g.Unmoved h) :
    Follows R (unlessDirectory p e) s h (Uneventful s g) := by
  refine Uneventful.bind (follows_isDirectory p hg) fun b h' hh => ?_
  cases b with
  | false => exact Follows.throw (.os hh e)
  | true => exact Follows.pure (.ok hh _)

/-- Making a directory, and going on with the answer. -/
theorem follows_makeDir_bind (p : Path) {k : Except OsError Unit → Task σ Unit} {g : Hand}
    (hg : g.Unmoved h) (hk : ∀ r h', g.Unmoved h' → Follows R (k r) s h' (Uneventful s g)) :
    Follows R (perform (.makeDir p) >>= k) s h (Uneventful s g) := by
  refine Follows.perform_bind fun w _ => ?_
  have hwithin : (Operation.makeDir p).Within fun _ => False := trivial
  obtain ⟨h', hmove, hmoved⟩ := Move.of_within hwithin h w
  exact ⟨h', hmove, hk _ h' (hg.trans hmoved)⟩

theorem follows_makeDirs (depth : Nat) (p : Path) {g : Hand} (hg : g.Unmoved h) :
    Follows R (makeDirs depth p) s h (Uneventful s g) := by
  induction depth generalizing p h with
  | zero =>
    rw [makeDirs]
    refine follows_makeDir_bind p hg fun r h' hh => ?_
    split
    · exact Follows.pure (.ok hh _)
    · split
      · exact Follows.throw (.os hh _)
      · exact follows_unlessDirectory p _ hh
  | succ depth ih =>
    rw [makeDirs]
    refine follows_makeDir_bind p hg fun r h' hh => ?_
    split
    · exact Follows.pure (.ok hh _)
    · split
      · refine Uneventful.bind (ih p.parent hh) fun _ h' hh => ?_
        refine follows_makeDir_bind p hh fun r h' hh => ?_
        split
        · exact Follows.pure (.ok hh _)
        · split
          · exact Follows.throw (.os hh _)
          · exact follows_unlessDirectory p _ hh
      · exact follows_unlessDirectory p _ hh

theorem follows_ensureDirectory (p : Path) :
    Follows R (ensureDirectory p) s h (Uneventful s h) :=
  Uneventful.bind (follows_makeDirs _ p (.refl h)) fun _ _ hh => Follows.record (.ok hh _)

/-! ## Reading -/

/-- A lock of the file is in hand, if files are locked, and none if they are not. -/
def Hand.Guards (R : Rules) (h : Hand) (p : Path) : Prop :=
  if R.locks then ∃ l, h.lock = some l ∧ l.file = p else h.lock = none

section

variable {h' h'' : Hand} {ps qs : List (Path × Tree)}

/-- Between two times at which no file is being written, these files have been written. -/
structure Hand.Goes (h : Hand) (ps : List (Path × Tree)) (h' : Hand) : Prop where
  temporary : h'.temporary = none
  puts : h'.puts = h.puts ++ ps
  missing : ∀ p ∈ h.missing, p ∈ h'.missing

theorem Hand.Goes.refl (hfree : h.temporary = none) : h.Goes [] h :=
  ⟨hfree, (List.append_nil _).symm, fun _ hp => hp⟩

theorem Hand.Goes.trans (H : h.Goes ps h') (H' : h'.Goes qs h'') : h.Goes (ps ++ qs) h'' where
  temporary := H'.temporary
  puts := by rw [H'.puts, H.puts, List.append_assoc]
  missing p hp := H'.missing p (H.missing p hp)

/-- Taking or giving back a lock writes no file. -/
theorem Hand.Goes.withLock (H : h.Goes ps h') (l : Option Lock) (now : Option Tree) :
    h.Goes ps { h' with lock := l, now := now } :=
  ⟨H.temporary, H.puts, H.missing⟩

theorem Hand.goes_put (h : Hand) (p : Path) (bytes : Bytes) (t : Tree) :
    h.Goes [(p, t)] (h.put p bytes t) :=
  ⟨rfl, rfl, fun _ hq => hq⟩

theorem Hand.Guards.put {p q : Path} (hguards : h.Guards R p) (bytes : Bytes) (t : Tree) :
    (h.put q bytes t).Guards R p := by
  unfold Hand.Guards at hguards ⊢
  split at hguards
  · obtain ⟨l, hl, rfl⟩ := hguards
    rename_i hlocks
    rw [if_pos hlocks]
    exact ⟨l.after q bytes, by rw [Hand.put, hl]; rfl, l.file_after q bytes⟩
  · rename_i hlocks
    rw [if_neg hlocks, Hand.put, hguards]
    rfl

theorem Hand.Unmoved.guards {p : Path} (H : h.Unmoved h') (hguards : h.Guards R p) :
    h'.Guards R p := by
  obtain ⟨now, rfl⟩ := H
  exact hguards

theorem Hand.Unmoved.goes (H : h.Unmoved h') (hfree : h.temporary = none) : h.Goes [] h' := by
  obtain ⟨now, rfl⟩ := H
  exact ⟨hfree, (List.append_nil _).symm, fun _ hp => hp⟩

end

theorem Hand.MayPut.congr {h' : Hand} {p : Path} {bytes : Bytes} (hmay : h.MayPut R p bytes)
    (hlock : h'.lock = h.lock) (hmissing : h'.missing = h.missing) : h'.MayPut R p bytes := by
  unfold Hand.MayPut Hand.Knows
  rw [hlock, hmissing]
  exact hmay

/-- A file has been written, or nothing has been done because of an error of the file system. -/
def Saved (s : σ) (h : Hand) (p : Path) (bytes : Bytes) (r : Except Failure α) (s' : σ)
    (h' : Hand) : Prop :=
  s' = s ∧ match r with
    | .ok _ => ∃ t, h' = h.put p bytes t
    | .error e => e.IsOs ∧ h.Unmoved h'

section

variable {p : Path} {bytes : Bytes}

/-- What is written beside a place is moved there, or stays. -/
theorem follows_moveIntoPlace (hmay : h.MayPut R p bytes) (k : Nat) (held : Bytes) :
    Follows R (do
      Task.orOsError (← perform (.write (besides p k) bytes))
      Task.orOsError (← perform (.rename (besides p k) p))) s
      { h with temporary := some (besides p k, held), now := none } fun r s' h' => s' = s ∧
        match r with
        | .ok _ => ∃ t, h' = h.put p bytes t
        | .error e => e.IsOs ∧
          ∃ held, h' = { h with temporary := some (besides p k, held), now := none } := by
  refine Follows.write_bind (fun w t _ hwrite => ⟨_, .fill rfl hwrite, ?_⟩) fun cause =>
    Follows.throw ⟨rfl, ⟨_, rfl⟩, held, rfl⟩
  refine Follows.perform_bind fun w _ => ?_
  cases hrename : w.tree.rename (besides p k) p with
  | error cause =>
    refine ⟨_, .refuse ⟨cause, hrename⟩, ?_⟩
    rw [Operation.run, hrename]
    exact Follows.throw ⟨rfl, ⟨_, rfl⟩, bytes, rfl⟩
  | ok t =>
    refine ⟨_, .move rfl (hmay.congr rfl rfl) hrename, ?_⟩
    rw [Operation.run, hrename]
    exact Follows.pure ⟨rfl, t, rfl⟩

/-- A file that is there is found. -/
theorem follows_isThere_bind {k : Bool → Task σ α} {q : Path} {held : Bytes}
    {post : Except Failure α → σ → Hand → Prop} (hq : h.temporary = some (q, held))
    (hk : Follows R (k true) s h post) : Follows R (isThere q >>= k) s h post := by
  refine Follows.perform_bind fun w hh => ⟨h, .look trivial, ?_⟩
  rw [Operation.run, kind_of_read (hh.temporary _ _ hq).2]
  exact hk

/-- **A file that is written beside its place and moved there.** -/
theorem follows_replaceFile (hfree : h.temporary = none) (hmay : h.MayPut R p bytes) :
    Follows R (replaceFile p bytes) s h (Saved s h p bytes) := by
  refine Follows.perform_bind fun w _ => ⟨h, .look trivial, ?_⟩
  obtain ⟨k, hk⟩ : ∃ k, (Operation.run (.freshName p.parent p.name) w).1 = temporaryName p.name k :=
    exists_freshFrom _ _ _ _
  rw [hk]
  refine Follows.create_bind (p := besides p k)
    (fun w t _ hcreate => ⟨_, .begin hfree hmay.isSource hcreate, ?_⟩)
    fun cause => Follows.throw ⟨rfl, ⟨_, rfl⟩, .refl h⟩
  refine (follows_moveIntoPlace hmay k []).attempt_bind fun r s' h' hmid => ?_
  obtain ⟨rfl, hmid⟩ := hmid
  cases r with
  | ok => exact Follows.pure ⟨rfl, hmid⟩
  | error e =>
    obtain ⟨hos, held, rfl⟩ := hmid
    refine follows_isThere_bind rfl (Follows.remove_bind fun w hh => ?_)
    obtain ⟨t, hremove⟩ := remove_of_read (hh.temporary _ _ rfl).2
    refine ⟨t, _, hremove, .drop rfl hremove, Follows.throw ⟨rfl, hos, none, ?_⟩⟩
    simp [hfree]

/-- **A file that is written**, with the directories that lead to it. -/
theorem follows_writeText {content : Text} {atomic : Bool} (hfree : h.temporary = none)
    (hmay : h.MayPut R p (encode content)) :
    Follows R (writeText p content atomic) s h (Saved s h p (encode content)) := by
  refine (follows_ensureDirectory p.parent).bind (fun _ s' h' hmid => ?_) fun e s' h' hmid =>
    ⟨hmid.1, hmid.2.2 e rfl, hmid.2.1⟩
  obtain ⟨rfl, ⟨now, rfl⟩, -⟩ := hmid
  have hmay' : ({ h with now := now } : Hand).MayPut R p (encode content) := hmay.congr rfl rfl
  cases atomic with
  | true =>
    refine (follows_replaceFile (h := { h with now := now }) hfree hmay').bind
      (fun _ s' h' hmid => ?_) fun e s' h' hmid => ?_
    · obtain ⟨rfl, t, rfl⟩ := hmid
      exact Follows.record_bind (Follows.pure ⟨rfl, t, rfl⟩)
    · exact ⟨hmid.1, hmid.2.1, hmid.2.2⟩
  | false =>
    refine Follows.write_bind (fun w t _ hwrite => ⟨_, .write hfree hmay' hwrite, ?_⟩) fun cause =>
      Follows.throw ⟨rfl, ⟨_, rfl⟩, now, rfl⟩
    exact Follows.record_bind (Follows.pure ⟨rfl, t, rfl⟩)

end

/-! ## The store -/

namespace Store

variable {st : Store} {entity : Text}

/-- **A file that is saved** is written and counts as written, or nothing has been done. -/
theorem follows_save {ws : Written} {p : Path} {content : Text} (hdry : st.config.dryRun = false)
    (hfree : h.temporary = none) (hmay : h.MayPut R p (encode content)) :
    Follows R (st.save p content) ws h fun r ws' h' => match r with
      | .ok _ => ws' = ws ++ [p] ∧ ∃ t, h' = h.put p (encode content) t
      | .error e => ws' = ws ∧ e.IsOs ∧ h.Unmoved h' := by
  rw [save, hdry]
  refine (follows_writeText hfree hmay).bind (fun _ ws' h' hmid => ?_) fun e ws' h' hmid => hmid
  obtain ⟨rfl, hput⟩ := hmid
  exact Follows.modify_bind (Follows.record_bind (Follows.pure ⟨rfl, hput⟩))

/-- **A repository is written unless something is found where it would be.**  Whether that is so can
be told if nobody has changed the tree since the class was written. -/
theorem follows_writeRepository {ws : Written} {content : Text} {e : Path}
    (hdry : st.config.dryRun = false) (hfree : h.temporary = none) (hmissing : e ∈ h.missing)
    (hstub : R.stubs e (st.repositoryPathFor entity) (encode content)) :
    Follows R (st.writeRepository entity content) ws h fun r ws' h' =>
      (∀ q, h.Guards R q → h'.Guards R q) ∧ match r with
        | .ok none => ws' = ws ∧ h.Goes [] h' ∧
          ∀ t, R.alone = true → h.now = some t → t.Finds (st.repositoryPathFor entity)
        | .ok (some _) => ws' = ws ++ [st.repositoryPathFor entity] ∧
          (∃ t, h.Goes [(st.repositoryPathFor entity, t)] h') ∧
          ∀ t, R.alone = true → h.now = some t → ¬ t.Finds (st.repositoryPathFor entity)
        | .error e => e.IsOs ∧ ws' = ws ∧ h.Goes [] h' ∧
          ∀ t, R.alone = true → h.now = some t → ¬ t.Finds (st.repositoryPathFor entity) := by
  refine Follows.perform_bind fun w hh => ⟨_, .miss trivial, ?_⟩
  generalize hp : st.repositoryPathFor entity = p at hstub ⊢
  have hfinds : ∀ t, R.alone = true → h.now = some t → t.Finds p →
      ∃ k, kindOf (w.tree.look p) = .ok (some k) := by
    intro t halone hnow hfound
    rwa [hh.now halone t hnow]
  have hgoes : h.Goes [] { h with missing := (Operation.kind p).missed w ++ h.missing } :=
    ⟨hfree, (List.append_nil _).symm, fun q hq => List.mem_append_right _ hq⟩
  cases hkind : kindOf (w.tree.look p) with
  | error cause =>
    rw [Operation.run, hkind]
    refine Follows.throw ⟨fun _ h => h, ⟨_, rfl⟩, rfl, hgoes, fun t halone hnow hfound => ?_⟩
    obtain ⟨k, hk⟩ := hfinds t halone hnow hfound
    rw [hkind] at hk
    cases hk
  | ok found =>
    rw [Operation.run, hkind]
    cases found with
    | some kind =>
      refine Follows.record_bind (Follows.pure ⟨fun _ h => h, rfl, hgoes, fun t halone hnow => ?_⟩)
      exact ⟨kind, by rw [← hh.now halone t hnow, hkind]⟩
    | none =>
      have hunfound : ∀ t, R.alone = true → h.now = some t → ¬ t.Finds p := by
        intro t halone hnow hfound
        obtain ⟨k, hk⟩ := hfinds t halone hnow hfound
        rw [hkind] at hk
        cases hk
      have hmay : ({ h with missing := (Operation.kind p).missed w ++ h.missing } : Hand).MayPut R p
          (encode content) :=
        .inr ⟨e, hstub, hgoes.missing e hmissing,
          List.mem_append_left _ (by simp [Operation.missed, hkind])⟩
      refine Follows.bind (follows_save
        (h := { h with missing := (Operation.kind p).missed w ++ h.missing }) hdry hfree hmay)
        (fun _ ws' h' hmid => ?_) fun x ws' h' hmid => ?_
      · obtain ⟨rfl, t, rfl⟩ := hmid
        exact Follows.pure ⟨fun q hq => Hand.Guards.put hq _ t, rfl,
          ⟨t, hgoes.trans (Hand.goes_put _ p _ t)⟩, hunfound⟩
      · obtain ⟨rfl, hos, hmoved⟩ := hmid
        exact ⟨fun q hq => hmoved.guards hq, hos, rfl,
          hgoes.trans (hmoved.goes hgoes.temporary), hunfound⟩

/-! ### Locks -/

end Store

end Storage

end EntityScaffold
