import EntityScaffold.Proofs.Storage.Places

/-!
# What a run has in hand

Between two operations a run has in hand at most one lock and one file that it writes to be moved.
Both have been made by itself, in places where nothing was, and as long as it has them they are there.
While it has the lock of a file it knows what the file holds.

* `Hand` — what a run has in hand, what it has missed, and what it has written so far.
* `Rules` — what a run may write: edits of files and stubs of missing ones.
* `Hand.Holds` — what is true of the tree because of what a run has in hand.
* `Move` — how an operation changes what a run has in hand; `Move.holds` — that is true of the tree
  then; `Move.change` — where the tree has changed.
* `Move.stable` — what another run has in hand stays true.
-/

set_option autoImplicit false

namespace EntityScaffold.Storage

open Text

/-- The lock of a file, taken by a run. -/
structure Lock where
  file : Path
  /-- What the lock file holds. -/
  owner : Bytes
  /-- What the file holds. -/
  content : Option Bytes
  /-- Whether the run has read the file since. -/
  isRead : Bool := false

/-- The lock once its run has written a file.  What has been read of that file is out of date. -/
def Lock.after (l : Lock) (p : Path) (bytes : Bytes) : Lock :=
  if p.place = l.file.place then { l with content := some bytes, isRead := false } else l

@[simp] theorem Lock.file_after (l : Lock) (p : Path) (bytes : Bytes) :
    (l.after p bytes).file = l.file := by
  rw [Lock.after]
  split <;> rfl

@[simp] theorem Lock.owner_after (l : Lock) (p : Path) (bytes : Bytes) :
    (l.after p bytes).owner = l.owner := by
  rw [Lock.after]
  split <;> rfl

/-- What a run has in hand. -/
structure Hand where
  lock : Option Lock := none
  /-- The file that it writes to be moved, and what that holds. -/
  temporary : Option (Path × Bytes) := none
  /-- The paths at which it has found nothing. -/
  missing : List Path := []
  /-- The files that it has written, each with the tree that this has left. -/
  puts : List (Path × Tree) := []
  /-- The tree, as long as nothing has changed since the last file was written. -/
  now : Option Tree := none

/-- What a run may write, and among whom it runs. -/
structure Rules where
  /-- Whether no other run is under way. -/
  alone : Bool
  /-- Whether files are locked before they are read. -/
  locks : Bool
  /-- The places of files that are written without a lock. -/
  shared : Place → Prop
  /-- A file that holds this may come to hold that. -/
  edits : Path → Option Bytes → Bytes → Prop
  /-- The second of two files may be written if neither has been found. -/
  stubs : Path → Path → Bytes → Prop
  isSource_of_edits : ∀ p held bytes, edits p held bytes → IsSource p
  isSource_of_stubs : ∀ p q bytes, stubs p q bytes → IsSource q
  shared_of_stubs : ∀ p q bytes, stubs p q bytes → shared q.place

namespace Hand

/-- Where what a run has in hand is. -/
def tokens (h : Hand) : List Place :=
  (h.lock.map fun l => (lockOf l.file).place).toList ++ (h.temporary.map fun x => x.1.place).toList

/-- The run knows what a file holds: it has its lock, if files are locked, and has read it. -/
def Knows (R : Rules) (h : Hand) (p : Path) (held : Option Bytes) : Prop :=
  R.locks = true → ∃ l, h.lock = some l ∧ l.file = p ∧ l.isRead = true ∧
    (¬ R.shared p.place → l.content = held)

/-- The run may write a file: an edit of one that it knows, or a stub of one that it has missed. -/
def MayPut (R : Rules) (h : Hand) (p : Path) (bytes : Bytes) : Prop :=
  (∃ held, R.edits p held bytes ∧ h.Knows R p held) ∨
    ∃ e, R.stubs e p bytes ∧ e ∈ h.missing ∧ p ∈ h.missing

/-- What a run has in hand once it has written a file. -/
def put (h : Hand) (p : Path) (bytes : Bytes) (t : Tree) : Hand :=
  { h with
    lock := h.lock.map (·.after p bytes)
    temporary := none
    puts := h.puts ++ [(p, t)]
    now := some t }

/-- **What is true of the tree because of what a run has in hand.** -/
structure Holds (R : Rules) (h : Hand) (t : Tree) : Prop where
  lock : ∀ l, h.lock = some l → IsSource l.file ∧ t.read (lockOf l.file) = .ok l.owner ∧
    (¬ R.shared l.file.place → t.fileAt l.file.place = l.content)
  temporary : ∀ q bytes, h.temporary = some (q, bytes) →
    (∃ p k, IsSource p ∧ q = besides p k) ∧ t.read q = .ok bytes
  now : R.alone = true → ∀ t', h.now = some t' → t = t'

theorem holds_empty (R : Rules) (t : Tree) : ({} : Hand).Holds R t :=
  ⟨fun _ hl => (nomatch hl), fun _ _ hq => (nomatch hq), fun _ _ hnow => nomatch hnow⟩

end Hand

/-! ## Operations -/

/-- Whether an operation only looks. -/
def Operation.Looks : Operation → Prop
  | .read _ | .kind _ | .names _ | .freshName .. | .say _ | .record _ => True
  | _ => False

/-- Whether an operation that is to change files is refused. -/
def Operation.Refused : Operation → World → Prop
  | .makeDir p, w => ∃ cause, w.tree.makeDir p = .error cause
  | .create p bytes, w => ∃ cause, w.tree.create p bytes = .error cause
  | .write p bytes, w => ∃ cause, w.tree.write p bytes = .error cause
  | .rename p q, w => ∃ cause, w.tree.rename p q = .error cause
  | .remove p, w => ∃ cause, w.tree.remove p = .error cause
  | _, _ => False

/-- The source file that an operation writes, from beside its place or in it, and the tree that this
leaves. -/
def Operation.saved : Operation → World → Option (Path × Tree)
  | .write p bytes, w =>
    if (".php" : Text) <:+ p.name then (w.tree.write p bytes).toOption.map (p, ·) else none
  | .rename q p, w => (w.tree.rename q p).toOption.map (p, ·)
  | _, _ => none

/-- The path at which an operation finds nothing. -/
def Operation.missed : Operation → World → List Path
  | .read p, w => if w.tree.read p = .error .notFound then [p] else []
  | .kind p, w => if kindOf (w.tree.look p) = .ok none then [p] else []
  | _, _ => []

theorem Operation.Looks.tree_eq {op : Operation} (h : op.Looks) (w : World) :
    (op.run w).2.tree = w.tree := by
  cases op <;> first | rfl | exact h.elim

theorem Operation.Looks.saved_eq {op : Operation} (h : op.Looks) (w : World) :
    op.saved w = none := by
  cases op <;> first | rfl | exact h.elim

theorem Operation.Refused.saved_eq {op : Operation} {w : World} (h : op.Refused w) :
    op.saved w = none := by
  cases op with
  | write p bytes =>
    obtain ⟨cause, hcause⟩ := h
    rw [Operation.saved, hcause]
    simp [Except.toOption]
  | rename q p =>
    obtain ⟨cause, hcause⟩ := h
    rw [Operation.saved, hcause]
    rfl
  | _ => rfl

theorem Operation.Refused.tree_eq {op : Operation} {w : World} (h : op.Refused w) :
    (op.run w).2.tree = w.tree := by
  cases op with
  | makeDir | create | write | remove =>
    obtain ⟨cause, hcause⟩ := h
    rw [Operation.run, hcause]
    rfl
  | rename p q =>
    obtain ⟨cause, hcause⟩ := h
    rw [Operation.run, hcause]
  | _ => exact h.elim

/-- **How an operation changes what a run has in hand**, and when it may perform it. -/
inductive Move (R : Rules) (h : Hand) : Operation → World → Hand → Prop
  | look {op : Operation} {w : World} (hop : op.Looks) : Move R h op w h
  | miss {op : Operation} {w : World} (hop : op.Looks) :
    Move R h op w { h with missing := op.missed w ++ h.missing }
  | read {w : World} {l : Lock} (hlock : h.lock = some l) :
    Move R h (.read l.file) w { h with
      lock := some { l with isRead := true }
      missing := (Operation.read l.file).missed w ++ h.missing }
  | refuse {op : Operation} {w : World} (hop : op.Refused w) : Move R h op w h
  | makeDir {p : Path} {w : World} {t : Tree} (hop : w.tree.makeDir p = .ok t) :
    Move R h (.makeDir p) w { h with now := none }
  | take {p : Path} {owner : Bytes} {w : World} {t : Tree} (hfree : h.lock = none)
    (hp : IsSource p) (hop : w.tree.create (lockOf p) owner = .ok t) :
    Move R h (.create (lockOf p) owner) w
      { h with lock := some ⟨p, owner, w.tree.fileAt p.place, false⟩, now := none }
  | give {l : Lock} {w : World} {t : Tree} (hlock : h.lock = some l)
    (hop : w.tree.remove (lockOf l.file) = .ok t) :
    Move R h (.remove (lockOf l.file)) w { h with lock := none, now := none }
  | begin {p : Path} {k : Nat} {bytes : Bytes} {w : World} {t : Tree} (hfree : h.temporary = none)
    (hp : IsSource p) (hop : w.tree.create (besides p k) bytes = .ok t) :
    Move R h (.create (besides p k) bytes) w
      { h with temporary := some (besides p k, bytes), now := none }
  | fill {q : Path} {held bytes : Bytes} {w : World} {t : Tree} (hheld : h.temporary = some (q, held))
    (hop : w.tree.write q bytes = .ok t) :
    Move R h (.write q bytes) w { h with temporary := some (q, bytes), now := none }
  | drop {q : Path} {held : Bytes} {w : World} {t : Tree} (hheld : h.temporary = some (q, held))
    (hop : w.tree.remove q = .ok t) :
    Move R h (.remove q) w { h with temporary := none, now := none }
  | move {p q : Path} {bytes : Bytes} {w : World} {t : Tree} (hheld : h.temporary = some (q, bytes))
    (hmay : h.MayPut R p bytes) (hop : w.tree.rename q p = .ok t) :
    Move R h (.rename q p) w (h.put p bytes t)
  | write {p : Path} {bytes : Bytes} {w : World} {t : Tree} (hfree : h.temporary = none)
    (hmay : h.MayPut R p bytes) (hop : w.tree.write p bytes = .ok t) :
    Move R h (.write p bytes) w (h.put p bytes t)

section

variable {R : Rules} {h h' : Hand} {op : Operation} {w : World} {t t' : Tree}

theorem Hand.MayPut.isSource {p : Path} {bytes : Bytes} (hmay : h.MayPut R p bytes) : IsSource p := by
  rcases hmay with ⟨held, hedit, -⟩ | ⟨e, hstub, -⟩
  · exact R.isSource_of_edits p held bytes hedit
  · exact R.isSource_of_stubs e p bytes hstub

theorem tree_of_change {p : Path} {r : Except OsCause Tree} (hr : r = .ok t) :
    (w.change p r).2.tree = t := by
  rw [hr]
  rfl

theorem tree_of_rename {p q : Path} (hr : w.tree.rename q p = .ok t) :
    ((Operation.rename q p).run w).2.tree = t := by
  rw [Operation.run, hr]

/-! ## What is in hand is there -/

namespace Hand

theorem mem_tokens {x : Place} : x ∈ h.tokens ↔
    (∃ l, h.lock = some l ∧ x = (lockOf l.file).place) ∨
      ∃ q bytes, h.temporary = some (q, bytes) ∧ x = q.place := by
  simp only [tokens, List.mem_append, Option.mem_toList, Option.map_eq_some_iff, Prod.exists]
  constructor
  · rintro (⟨l, hl, rfl⟩ | ⟨q, bytes, hq, rfl⟩)
    · exact .inl ⟨l, hl, rfl⟩
    · exact .inr ⟨q, bytes, hq, rfl⟩
  · rintro (⟨l, hl, rfl⟩ | ⟨q, bytes, hq, rfl⟩)
    · exact .inl ⟨l, hl, rfl⟩
    · exact .inr ⟨q, bytes, hq, rfl⟩

theorem mem_tokens_of_put {p : Path} {bytes : Bytes} {x : Place} (hx : x ∈ (h.put p bytes t).tokens) :
    x ∈ h.tokens := by
  rcases mem_tokens.mp hx with ⟨l, hl, rfl⟩ | ⟨q, held, hq, -⟩
  · obtain ⟨l', hl', rfl⟩ := Option.map_eq_some_iff.mp hl
    rw [Lock.file_after]
    exact mem_tokens.mpr (.inl ⟨l', hl', rfl⟩)
  · cases hq

theorem mem_tokens_put {p : Path} {bytes : Bytes} {x : Place} (hx : x ∈ h.tokens) :
    x ∈ (h.put p bytes t).tokens ∨ ∃ q held, h.temporary = some (q, held) ∧ x = q.place := by
  rcases mem_tokens.mp hx with ⟨l, hl, rfl⟩ | hq
  · refine .inl (mem_tokens.mpr (.inl ⟨l.after p bytes, ?_, by rw [Lock.file_after]⟩))
    rw [put, hl]
    rfl
  · exact .inr hq

/-- What a run has in hand are files. -/
theorem Holds.exists_of_mem_tokens (hh : h.Holds R t) {x : Place} (hx : x ∈ h.tokens) :
    ∃ bytes, t.entryAt x = some (.file bytes) := by
  rcases mem_tokens.mp hx with ⟨l, hl, rfl⟩ | ⟨q, bytes, hq, rfl⟩
  · exact ⟨_, (read_iff.mp (hh.lock l hl).2.1).2⟩
  · exact ⟨_, (read_iff.mp (hh.temporary q bytes hq).2).2⟩

/-- None of them is at the place of a source file. -/
theorem Holds.ne_of_mem_tokens (hh : h.Holds R t) {x : Place} (hx : x ∈ h.tokens) {p : Path}
    (hp : IsSource p) : p.place ≠ x := by
  rcases mem_tokens.mp hx with ⟨l, hl, rfl⟩ | ⟨q, bytes, hq, rfl⟩
  · exact hp.ne_lockOf (hh.lock l hl).1
  · obtain ⟨⟨p', k, hp', rfl⟩, -⟩ := hh.temporary q bytes hq
    exact hp.ne_besides hp' k

/-- The lock and the file that is written to be moved are at two places. -/
theorem Holds.lock_ne_temporary (hh : h.Holds R t) {l : Lock} (hl : h.lock = some l) {q : Path}
    {bytes : Bytes} (hq : h.temporary = some (q, bytes)) : (lockOf l.file).place ≠ q.place := by
  obtain ⟨⟨p, k, hp, rfl⟩, -⟩ := hh.temporary q bytes hq
  exact (hh.lock l hl).1.lockOf_ne_besides hp k

/-- A lock stays true while the tree changes neither at its place nor, if the file is written behind
locks only, at that of the file. -/
theorem Holds.lock_of_onlyAt {qs : List Place} (hh : h.Holds R t) (hchange : OnlyAt qs t t')
    {l : Lock} (hl : h.lock = some l) (hlock : (lockOf l.file).place ∉ qs)
    (hfile : ¬ R.shared l.file.place → l.file.place ∉ qs) :
    IsSource l.file ∧ t'.read (lockOf l.file) = .ok l.owner ∧
      (¬ R.shared l.file.place → t'.fileAt l.file.place = l.content) := by
  obtain ⟨hsource, hread, hcontent⟩ := hh.lock l hl
  refine ⟨hsource, hchange.read_eq hlock hread, fun hshared => ?_⟩
  rw [hchange.fileAt_eq (hfile hshared), hcontent hshared]

/-- A lock stays true while the tree changes at the place of a file that is written to be moved. -/
theorem Holds.lock_of_besides {p : Path} {k : Nat} (hh : h.Holds R t) (hp : IsSource p)
    (hchange : OnlyAt [(besides p k).place] t t') {l : Lock} (hl : h.lock = some l) :
    IsSource l.file ∧ t'.read (lockOf l.file) = .ok l.owner ∧
      (¬ R.shared l.file.place → t'.fileAt l.file.place = l.content) := by
  have hsource := (hh.lock l hl).1
  exact hh.lock_of_onlyAt hchange hl (by simpa using hsource.lockOf_ne_besides hp k)
    fun _ => by simpa using hsource.ne_besides hp k

/-- A file that is written to be moved stays true while the tree changes elsewhere. -/
theorem Holds.temporary_of_onlyAt {qs : List Place} (hh : h.Holds R t) (hchange : OnlyAt qs t t')
    {q : Path} {bytes : Bytes} (hq : h.temporary = some (q, bytes)) (hplace : q.place ∉ qs) :
    (∃ p k, IsSource p ∧ q = besides p k) ∧ t'.read q = .ok bytes := by
  obtain ⟨hname, hread⟩ := hh.temporary q bytes hq
  exact ⟨hname, hchange.read_eq hplace hread⟩

/-- What is in hand stays true while the tree changes elsewhere. -/
theorem Holds.of_onlyAt {qs : List Place} (hh : h.Holds R t) (hchange : OnlyAt qs t t')
    (htokens : ∀ x ∈ h.tokens, x ∉ qs)
    (hfile : ∀ l, h.lock = some l → ¬ R.shared l.file.place → l.file.place ∉ qs)
    (hnow : R.alone = true → ∀ t₁, h.now = some t₁ → t' = t₁) : h.Holds R t' where
  lock l hl := hh.lock_of_onlyAt hchange hl (htokens _ (mem_tokens.mpr (.inl ⟨l, hl, rfl⟩)))
    (hfile l hl)
  temporary q bytes hq :=
    hh.temporary_of_onlyAt hchange hq (htokens _ (mem_tokens.mpr (.inr ⟨q, bytes, hq, rfl⟩)))
  now := hnow

/-- What has been missed, and whether a locked file has been read, is no matter of the tree. -/
theorem Holds.of_looks (hh : h.Holds R t) (hlock : ∀ l', h'.lock = some l' → ∃ l, h.lock = some l ∧
      l'.file = l.file ∧ l'.owner = l.owner ∧ l'.content = l.content)
    (htemporary : h'.temporary = h.temporary) (hnow : h'.now = h.now) : h'.Holds R t where
  lock l' hl' := by
    obtain ⟨l, hl, hfile, howner, hcontent⟩ := hlock l' hl'
    rw [hfile, howner, hcontent]
    exact hh.lock l hl
  temporary q bytes hq := hh.temporary q bytes (htemporary ▸ hq)
  now halone t₁ ht₁ := hh.now halone t₁ (hnow ▸ ht₁)

/-- A file has been written, from beside its place or in it. -/
theorem Holds.put {p : Path} {bytes : Bytes} {qs : List Place} (hh : h.Holds R t)
    (hp : IsSource p) (hread : t'.read p = .ok bytes) (hchange : OnlyAt qs t t')
    (hqs : ∀ x ∈ qs, x = p.place ∨ ∃ q held, h.temporary = some (q, held) ∧ x = q.place) :
    (h.put p bytes t').Holds R t' where
  lock l' hl' := by
    obtain ⟨l, hl, rfl⟩ := Option.map_eq_some_iff.mp hl'
    obtain ⟨hsource, hlock, hcontent⟩ := hh.lock l hl
    rw [Lock.file_after, Lock.owner_after]
    refine ⟨hsource, hchange.read_eq (fun hmem => ?_) hlock, fun hshared => ?_⟩
    · rcases hqs _ hmem with heq | ⟨q, held, hq, heq⟩
      · exact hp.ne_lockOf hsource heq.symm
      · exact hh.lock_ne_temporary hl hq heq
    · by_cases hplace : p.place = l.file.place
      · rw [Lock.after, if_pos hplace, ← hplace]
        exact fileAt_of_read hread
      · rw [Lock.after, if_neg hplace, ← hcontent hshared]
        refine hchange.fileAt_eq fun hmem => ?_
        rcases hqs _ hmem with heq | ⟨q, held, hq, heq⟩
        · exact hplace heq.symm
        · exact hh.ne_of_mem_tokens (mem_tokens.mpr (.inr ⟨q, held, hq, rfl⟩)) hsource heq
  temporary q held hq := nomatch hq
  now _ t₁ ht₁ := Option.some.inj ht₁

end Hand

/-- **What a run has in hand after an operation is there.** -/
theorem Move.holds (hm : Move R h op w h') (hh : h.Holds R w.tree) :
    h'.Holds R (op.run w).2.tree := by
  cases hm with
  | look hop => rwa [hop.tree_eq]
  | miss hop =>
    rw [hop.tree_eq]
    exact hh.of_looks (fun l hl => ⟨l, hl, rfl, rfl, rfl⟩) rfl rfl
  | read hlock =>
    refine hh.of_looks (fun l' hl' => ⟨_, hlock, ?_⟩) rfl rfl
    cases hl'
    exact ⟨rfl, rfl, rfl⟩
  | refuse hop => rwa [hop.tree_eq]
  | makeDir hop =>
    rw [Operation.run, tree_of_change hop]
    have hkeep : ({ h with now := none } : Hand).Holds R w.tree :=
      ⟨hh.lock, hh.temporary, by simp⟩
    exact hkeep.of_onlyAt (untouched_makeDir hop).onlyAt (fun _ _ => List.not_mem_nil)
      (fun _ _ _ => List.not_mem_nil) (by simp)
  | take hfree hp hop =>
    obtain ⟨hnone, hchange, hread⟩ := create_ok hop
    rw [Operation.run, tree_of_change hop]
    refine ⟨fun l' hl' => ?_, fun q bytes hq => ?_, by simp⟩
    · cases hl'
      exact ⟨hp, hread, fun _ => hchange.fileAt_eq (by simpa using hp.ne_lockOf hp)⟩
    · obtain ⟨⟨p', k, hp', rfl⟩, -⟩ := hh.temporary q bytes hq
      exact hh.temporary_of_onlyAt hchange hq (by simpa using (hp.lockOf_ne_besides hp' k).symm)
  | give hlock hop =>
    obtain ⟨-, hchange, -⟩ := remove_ok hop
    rw [Operation.run, tree_of_change hop]
    exact ⟨by simp, fun q bytes hq => hh.temporary_of_onlyAt hchange hq
      (by simpa using (hh.lock_ne_temporary hlock hq).symm), by simp⟩
  | begin hfree hp hop =>
    obtain ⟨-, hchange, hread⟩ := create_ok hop
    rw [Operation.run, tree_of_change hop]
    refine ⟨fun l hl => hh.lock_of_besides hp hchange hl, fun q bytes hq => ?_, by simp⟩
    cases hq
    exact ⟨⟨_, _, hp, rfl⟩, hread⟩
  | fill hheld hop =>
    obtain ⟨hchange, hread⟩ := write_ok hop
    obtain ⟨⟨p, k, hp, rfl⟩, -⟩ := hh.temporary _ _ hheld
    rw [Operation.run, tree_of_change hop]
    refine ⟨fun l hl => hh.lock_of_besides hp hchange hl, fun q bytes hq => ?_, by simp⟩
    cases hq
    exact ⟨⟨p, k, hp, rfl⟩, hread⟩
  | drop hheld hop =>
    obtain ⟨-, hchange, -⟩ := remove_ok hop
    obtain ⟨⟨p, k, hp, rfl⟩, -⟩ := hh.temporary _ _ hheld
    rw [Operation.run, tree_of_change hop]
    exact ⟨fun l hl => hh.lock_of_besides hp hchange hl, by simp, by simp⟩
  | move hheld hmay hop =>
    obtain ⟨-, hread⟩ := hh.temporary _ _ hheld
    have hne := hh.ne_of_mem_tokens (Hand.mem_tokens.mpr (.inr ⟨_, _, hheld, rfl⟩)) hmay.isSource
    obtain ⟨hchange, hmoved, -⟩ := rename_ok hread hne.symm hop
    rw [tree_of_rename hop]
    refine hh.put hmay.isSource hmoved hchange fun x hx => ?_
    simp only [List.mem_cons, List.not_mem_nil, or_false] at hx
    rcases hx with rfl | rfl
    · exact .inr ⟨_, _, hheld, rfl⟩
    · exact .inl rfl
  | write hfree hmay hop =>
    obtain ⟨hchange, hread⟩ := write_ok hop
    rw [Operation.run, tree_of_change hop]
    exact hh.put hmay.isSource hread hchange fun x hx => .inl (List.mem_singleton.mp hx)

/-- A file that is written to be moved is no source file. -/
theorem not_suffix_name_besides {p : Path} (hp : IsSource p) (k : Nat) :
    ¬ (".php" : Text) <:+ (besides p k).name := by
  obtain ⟨d, n, rfl⟩ := hp
  rintro ⟨s, hs⟩
  rw [besides_entry, name_entry] at hs
  exact source_ne_temporary hs

theorem saved_of_rename {p q : Path} (hr : w.tree.rename q p = .ok t) :
    (Operation.rename q p).saved w = some (p, t) := by
  rw [Operation.saved, hr]
  rfl

theorem saved_of_write {p : Path} {bytes : Bytes} (hp : IsSource p)
    (hr : w.tree.write p bytes = .ok t) : (Operation.write p bytes).saved w = some (p, t) := by
  rw [Operation.saved, if_pos hp.suffix_name, hr]
  rfl

/-- **What an operation has written is put down as such.** -/
theorem Move.puts_eq (hm : Move R h op w h') (hh : h.Holds R w.tree) :
    h'.puts = h.puts ++ (op.saved w).toList := by
  cases hm with
  | look hop | miss hop =>
    rw [hop.saved_eq]
    exact (List.append_nil _).symm
  | refuse hop =>
    rw [hop.saved_eq]
    exact (List.append_nil _).symm
  | read | makeDir | take | give | begin | drop => exact (List.append_nil _).symm
  | fill hheld hop =>
    obtain ⟨⟨p, k, hp, rfl⟩, -⟩ := hh.temporary _ _ hheld
    rw [Operation.saved, if_neg (not_suffix_name_besides hp k)]
    exact (List.append_nil _).symm
  | move hheld hmay hop =>
    rw [saved_of_rename hop]
    rfl
  | write hfree hmay hop =>
    rw [saved_of_write hmay.isSource hop]
    rfl

/-- A file that has been written may be, and is there. -/
theorem Move.of_saved (hm : Move R h op w h') (hh : h.Holds R w.tree) {p : Path} {t : Tree}
    (hsaved : op.saved w = some (p, t)) :
    ∃ bytes, h.MayPut R p bytes ∧ (op.run w).2.tree = t ∧ t.read p = .ok bytes := by
  cases hm with
  | look hop | miss hop | refuse hop =>
    rw [hop.saved_eq] at hsaved
    cases hsaved
  | read | makeDir | take | give | begin | drop => cases hsaved
  | fill hheld hop =>
    obtain ⟨⟨p, k, hp, rfl⟩, -⟩ := hh.temporary _ _ hheld
    rw [Operation.saved, if_neg (not_suffix_name_besides hp k)] at hsaved
    cases hsaved
  | move hheld hmay hop =>
    cases (saved_of_rename hop).symm.trans hsaved
    obtain ⟨-, hread⟩ := hh.temporary _ _ hheld
    exact ⟨_, hmay, tree_of_rename hop, read_rename hread hop⟩
  | write hfree hmay hop =>
    cases (saved_of_write hmay.isSource hop).symm.trans hsaved
    exact ⟨_, hmay, by rw [Operation.run, tree_of_change hop], (write_ok hop).2⟩

/-- What has been missed before has been, and else what the operation has not found. -/
theorem Move.of_mem_missing (hm : Move R h op w h') {p : Path} (hp : p ∈ h'.missing) :
    p ∈ h.missing ∨ p ∈ op.missed w := by
  cases hm with
  | miss | read => exact (List.mem_append.mp hp).symm
  | _ => exact .inl hp

theorem Move.missing_subset (hm : Move R h op w h') {p : Path} (hp : p ∈ h.missing) :
    p ∈ h'.missing := by
  cases hm with
  | miss | read => exact List.mem_append_right _ hp
  | _ => exact hp

/-! ## What changes, and what other runs have in hand -/

/-- Where an operation changes the tree, and how that is in hand. -/
structure Change (h : Hand) (op : Operation) (w : World) (h' : Hand) : Prop where
  /-- Where something is that the run has in hand, or comes to have in hand, and where a file is
  that it writes. -/
  places : ∃ qs, OnlyAt qs w.tree (op.run w).2.tree ∧ ∀ x ∈ qs, x ∈ h.tokens ∨
    (x ∈ h'.tokens ∧ w.tree.entryAt x = none) ∨ ∃ p t, x = p.place ∧ op.saved w = some (p, t)
  /-- What is taken in hand is put where nothing is. -/
  gained : ∀ x ∈ h'.tokens, x ∈ h.tokens ∨ w.tree.entryAt x = none
  /-- What is given away is removed. -/
  lost : ∀ x ∈ h.tokens, x ∈ h'.tokens ∨ (op.run w).2.tree.entryAt x = none

theorem Change.of_onlyAt (hchange : OnlyAt [] w.tree (op.run w).2.tree)
    (htokens : h'.tokens = h.tokens) : Change h op w h' where
  places := ⟨[], hchange, fun _ hx => (List.not_mem_nil hx).elim⟩
  gained _ hx := .inl (htokens ▸ hx)
  lost _ hx := .inl (htokens.symm ▸ hx)

/-- One thing more in hand, put where nothing was. -/
theorem Change.gain {x : Place} (hchange : OnlyAt [x] w.tree (op.run w).2.tree)
    (hnone : w.tree.entryAt x = none) (htokens : ∀ y, y ∈ h'.tokens ↔ y = x ∨ y ∈ h.tokens) :
    Change h op w h' where
  places := by
    refine ⟨[x], hchange, fun y hy => ?_⟩
    obtain rfl := List.mem_singleton.mp hy
    exact .inr (.inl ⟨(htokens y).mpr (.inl rfl), hnone⟩)
  gained y hy := by
    rcases (htokens y).mp hy with rfl | hy
    · exact .inr hnone
    · exact .inl hy
  lost y hy := .inl ((htokens y).mpr (.inr hy))

/-- One thing less in hand, and nothing left in its place. -/
theorem Change.loss {x : Place} (hchange : OnlyAt [x] w.tree (op.run w).2.tree)
    (hgone : (op.run w).2.tree.entryAt x = none)
    (htokens : ∀ y, y ∈ h.tokens ↔ y = x ∨ y ∈ h'.tokens) : Change h op w h' where
  places := by
    refine ⟨[x], hchange, fun y hy => ?_⟩
    obtain rfl := List.mem_singleton.mp hy
    exact .inl ((htokens y).mpr (.inl rfl))
  gained y hy := .inl ((htokens y).mpr (.inr hy))
  lost y hy := by
    rcases (htokens y).mp hy with rfl | hy
    · exact .inr hgone
    · exact .inl hy

/-- A file has been written, and nothing is left of one that was written to be moved. -/
theorem Change.of_saved {p : Path} {bytes : Bytes} {qs : List Place}
    (hchange : OnlyAt qs w.tree (op.run w).2.tree)
    (hqs : ∀ x ∈ qs, x ∈ h.tokens ∨ x = p.place) (hsaved : op.saved w = some (p, t))
    (hgone : ∀ q held, h.temporary = some (q, held) → (op.run w).2.tree.entryAt q.place = none) :
    Change h op w (h.put p bytes t) where
  places := by
    refine ⟨qs, hchange, fun x hx => ?_⟩
    rcases hqs x hx with htoken | rfl
    · exact .inl htoken
    · exact .inr (.inr ⟨p, t, rfl, hsaved⟩)
  gained _ hx := .inl (Hand.mem_tokens_of_put hx)
  lost x hx := by
    rcases Hand.mem_tokens_put hx with hx | ⟨q, held, hq, rfl⟩
    · exact .inl hx
    · exact .inr (hgone q held hq)

/-- **How the tree changes by a move.** -/
theorem Move.change (hm : Move R h op w h') (hh : h.Holds R w.tree) : Change h op w h' := by
  have hstill : (op.run w).2.tree = w.tree → OnlyAt [] w.tree (op.run w).2.tree := fun htree => by
    rw [htree]
    exact .refl _
  cases hm with
  | look hop => exact .of_onlyAt (hstill (hop.tree_eq w)) rfl
  | miss hop => exact .of_onlyAt (hstill (hop.tree_eq w)) rfl
  | read hlock => exact .of_onlyAt (hstill rfl) (by simp [Hand.tokens, hlock])
  | refuse hop => exact .of_onlyAt (hstill hop.tree_eq) rfl
  | makeDir hop =>
    refine .of_onlyAt ?_ rfl
    rw [Operation.run, tree_of_change hop]
    exact (untouched_makeDir hop).onlyAt
  | take hfree hp hop =>
    obtain ⟨hnone, hchange, -⟩ := create_ok hop
    rw [← tree_of_change hop] at hchange
    exact .gain hchange hnone fun y => by simp [Hand.tokens, hfree]
  | give hlock hop =>
    obtain ⟨-, hchange, hgone⟩ := remove_ok hop
    rw [← tree_of_change hop] at hchange hgone
    exact .loss hchange hgone fun y => by simp [Hand.tokens, hlock]
  | begin hfree hp hop =>
    obtain ⟨hnone, hchange, -⟩ := create_ok hop
    rw [← tree_of_change hop] at hchange
    exact .gain hchange hnone fun y => by simp [Hand.tokens, hfree, or_comm]
  | fill hheld hop =>
    obtain ⟨hchange, -⟩ := write_ok hop
    rw [← tree_of_change hop] at hchange
    refine ⟨⟨_, hchange, fun x hx => ?_⟩,
      fun x hx => .inl (by simpa [Hand.tokens, hheld] using hx),
      fun x hx => .inl (by simpa [Hand.tokens, hheld] using hx)⟩
    rw [List.mem_singleton.mp hx]
    exact .inl (Hand.mem_tokens.mpr (.inr ⟨_, _, hheld, rfl⟩))
  | drop hheld hop =>
    obtain ⟨-, hchange, hgone⟩ := remove_ok hop
    rw [← tree_of_change hop] at hchange hgone
    exact .loss hchange hgone fun y => by simp [Hand.tokens, hheld, or_comm]
  | move hheld hmay hop =>
    obtain ⟨-, hread⟩ := hh.temporary _ _ hheld
    have htoken := Hand.mem_tokens.mpr (.inr ⟨_, _, hheld, rfl⟩)
    obtain ⟨hchange, -, hgone⟩ :=
      rename_ok hread (hh.ne_of_mem_tokens htoken hmay.isSource).symm hop
    rw [← tree_of_rename hop] at hchange hgone
    refine .of_saved hchange (fun x hx => ?_) (saved_of_rename hop) fun q held hq => ?_
    · simp only [List.mem_cons, List.not_mem_nil, or_false] at hx
      rcases hx with rfl | rfl
      · exact .inl htoken
      · exact .inr rfl
    · cases hheld.symm.trans hq
      exact hgone
  | write hfree hmay hop =>
    obtain ⟨hchange, -⟩ := write_ok hop
    rw [← tree_of_change hop] at hchange
    refine .of_saved hchange (fun x hx => .inr (List.mem_singleton.mp hx))
      (saved_of_write hmay.isSource hop) fun q held hq => ?_
    rw [hfree] at hq
    cases hq

/-- A run that locks files writes a file that it has locked, or one that is written without. -/
theorem Hand.MayPut.locked {p : Path} {bytes : Bytes} (hmay : h.MayPut R p bytes)
    (hlocks : R.locks = true) : R.shared p.place ∨ ∃ l, h.lock = some l ∧ l.file = p := by
  rcases hmay with ⟨held, -, hknows⟩ | ⟨e, hstub, -, -⟩
  · obtain ⟨l, hl, hfile, -⟩ := hknows hlocks
    exact .inr ⟨l, hl, hfile⟩
  · exact .inl (R.shared_of_stubs e p bytes hstub)

/-- A file of which another run has the lock is not written, unless it is one that is written without. -/
theorem Move.saved_ne {g : Hand} (hm : Move R h op w h') (hh : h.Holds R w.tree)
    (hapart : ∀ x ∈ h.tokens, x ∉ g.tokens) (hlocks : R.locks = true) {l : Lock}
    (hl : g.lock = some l) (hsource : IsSource l.file) (hsole : ¬ R.shared l.file.place) {p : Path}
    {t : Tree} (hsaved : op.saved w = some (p, t)) : p.place ≠ l.file.place := by
  intro hplace
  obtain ⟨bytes, hmay, -⟩ := hm.of_saved hh hsaved
  rcases hmay.locked hlocks with hfree | ⟨l', hl', rfl⟩
  · exact hsole (hplace ▸ hfree)
  · -- both would have the lock of one file
    have hsame := (hmay.isSource.lockOf_inj hsource).mpr hplace
    refine hapart _ (Hand.mem_tokens.mpr (.inl ⟨l', hl', rfl⟩)) ?_
    exact Hand.mem_tokens.mpr (.inl ⟨l, hl, hsame⟩)

/-- **What another run has in hand stays true**, if both lock files, and what the two have in hand
stays apart. -/
theorem Move.stable {R' : Rules} {g : Hand} (hm : Move R h op w h') (hh : h.Holds R w.tree)
    (hg : g.Holds R' w.tree) (hapart : ∀ x ∈ h.tokens, x ∉ g.tokens) (hlocks : R.locks = true)
    (halone : R'.alone = false) (hshared : ∀ q, R.shared q → R'.shared q) :
    g.Holds R' (op.run w).2.tree ∧ ∀ x ∈ h'.tokens, x ∉ g.tokens := by
  obtain ⟨⟨qs, hchange, hqs⟩, hgained, -⟩ := hm.change hh
  have hthere : ∀ x ∈ g.tokens, w.tree.entryAt x ≠ none := by
    intro x hx hnone
    obtain ⟨bytes, hfile⟩ := hg.exists_of_mem_tokens hx
    rw [hnone] at hfile
    cases hfile
  refine ⟨hg.of_onlyAt hchange (fun x hx hmem => ?_) (fun l hl hsole hmem => ?_) fun h => ?_,
    fun x hx hmem => ?_⟩
  · rcases hqs x hmem with htoken | ⟨-, hnone⟩ | ⟨p, t, rfl, hsaved⟩
    · exact hapart x htoken hx
    · exact hthere x hx hnone
    · obtain ⟨bytes, hmay, -⟩ := hm.of_saved hh hsaved
      exact hg.ne_of_mem_tokens hx hmay.isSource rfl
  · have hsource := (hg.lock l hl).1
    rcases hqs _ hmem with htoken | ⟨htoken, -⟩ | ⟨p, t, hplace, hsaved⟩
    · exact hh.ne_of_mem_tokens htoken hsource rfl
    · exact (hm.holds hh).ne_of_mem_tokens htoken hsource rfl
    · exact hm.saved_ne hh hapart hlocks hl hsource (mt (hshared _) hsole) hsaved hplace.symm
  · rw [halone] at h
    cases h
  · rcases hgained x hx with htoken | hnone
    · exact hapart x htoken hmem
    · exact hthere x hmem hnone

end

end EntityScaffold.Storage
