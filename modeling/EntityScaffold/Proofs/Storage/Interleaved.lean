import EntityScaffold.Proofs.Storage.Following
import Mathlib.Logic.Function.Basic

/-!
# Runs side by side

Several programs work on one tree, one operation of one of them at a time, in any order.  What has been
done so far is put down, so that it can be told afterwards who has had a lock, who has read a file, and
who has written it.

* `Locked`, `HasRead`, `Replays`, `savesOf` — what can be told from what has been done.
* `Interleaved` — programs on one tree; `Interleaved.step`, `Interleaved.run` — one operation of one of
  them, and many.
* `Orderly` — what each program has in hand, and how this shows in what has been done;
  `Orderly.step` — an operation keeps that up, if all programs keep to rules that lock files.
* `Serial` — no file is written between the time that somebody reads it and the time that they write
  it; `Serial.run`.
-/

set_option autoImplicit false

namespace EntityScaffold.Storage

open Text

/-! ## What an operation does at a place -/

namespace Operation

/-- The operation asks for what the file at a place holds. -/
def readsAt (q : Place) : Operation → Bool
  | .read p => p.place = q
  | _ => false

/-- The operation writes the source file at a place. -/
def savesAt (op : Operation) (w : World) (q : Place) : Bool :=
  (op.saved w).any fun x => x.1.place = q

/-- The operation makes a file at a place where nothing is. -/
def createsAt (q : Place) : Operation → World → Bool
  | .create p bytes, w => p.place = q && (w.tree.create p bytes).isOk
  | _, _ => false

/-- The operation removes the file at a place. -/
def removesAt (q : Place) : Operation → World → Bool
  | .remove p, w => p.place = q && (w.tree.remove p).isOk
  | _, _ => false

theorem savesAt_iff {op : Operation} {w : World} {q : Place} :
    op.savesAt w q = true ↔ ∃ p t, op.saved w = some (p, t) ∧ p.place = q := by
  simp [savesAt, Option.any_eq_true]

theorem Looks.quiet {op : Operation} (h : op.Looks) (w : World) (q : Place) :
    op.createsAt q w = false ∧ op.removesAt q w = false := by
  cases op <;> first | exact ⟨rfl, rfl⟩ | exact h.elim

theorem Refused.quiet {op : Operation} {w : World} (h : op.Refused w) (q : Place) :
    op.createsAt q w = false ∧ op.removesAt q w = false := by
  cases op with
  | create p bytes =>
    obtain ⟨cause, hcause⟩ := h
    exact ⟨by simp [createsAt, hcause, Except.isOk, Except.toBool], rfl⟩
  | remove p =>
    obtain ⟨cause, hcause⟩ := h
    exact ⟨rfl, by simp [removesAt, hcause, Except.isOk, Except.toBool]⟩
  | _ => exact ⟨rfl, rfl⟩

end Operation

/-- The run has the lock at a place. -/
def Hand.Locks (h : Hand) (x : Place) : Prop := ∃ l, h.lock = some l ∧ (lockOf l.file).place = x

section

variable {R : Rules} {h h' : Hand} {op : Operation} {w : World} {f : Path}

/-! ## What moves do at the place of a lock -/

theorem Hand.locks_put {p : Path} {bytes : Bytes} {t : Tree} {x : Place} :
    (h.put p bytes t).Locks x ↔ h.Locks x := by
  simp only [Locks, put, Option.map_eq_some_iff]
  constructor
  · rintro ⟨_, ⟨l, hl, rfl⟩, hx⟩
    exact ⟨l, hl, by rwa [Lock.file_after] at hx⟩
  · rintro ⟨l, hl, hx⟩
    exact ⟨_, ⟨l, hl, rfl⟩, by rwa [Lock.file_after]⟩

/-- What a run has in hand at the place of a lock is that lock. -/
theorem Hand.Holds.mem_tokens_iff {t : Tree} (hh : h.Holds R t) (hf : IsSource f) :
    (lockOf f).place ∈ h.tokens ↔ h.Locks (lockOf f).place := by
  rw [mem_tokens]
  constructor
  · rintro (⟨l, hl, hx⟩ | ⟨q, bytes, hq, hx⟩)
    · exact ⟨l, hl, hx.symm⟩
    · obtain ⟨⟨p, k, hp, rfl⟩, -⟩ := hh.temporary q bytes hq
      exact absurd hx (hf.lockOf_ne_besides hp k)
  · rintro ⟨l, hl, hx⟩
    exact .inl ⟨l, hl, hx.symm⟩

/-- **A lock is taken by making its file, and given back by removing it.** -/
theorem Move.locks_iff (hm : Move R h op w h') (hh : h.Holds R w.tree) (hf : IsSource f) :
    h'.Locks (lockOf f).place ↔ op.createsAt (lockOf f).place w = true ∨
      h.Locks (lockOf f).place ∧ op.removesAt (lockOf f).place w = false := by
  have hquiet : op.createsAt (lockOf f).place w = false ∧ op.removesAt (lockOf f).place w = false →
      (h'.Locks (lockOf f).place ↔ h.Locks (lockOf f).place) →
      (h'.Locks (lockOf f).place ↔ op.createsAt (lockOf f).place w = true ∨
        h.Locks (lockOf f).place ∧ op.removesAt (lockOf f).place w = false) := by
    rintro ⟨hcreate, hremove⟩ hsame
    simp [hcreate, hremove, hsame]
  cases hm with
  | look hop | miss hop => exact hquiet (hop.quiet w _) .rfl
  | refuse hop => exact hquiet (hop.quiet _) .rfl
  | read hlock => exact hquiet ⟨rfl, rfl⟩ (by simp [Hand.Locks, hlock])
  | makeDir | fill => exact hquiet ⟨rfl, rfl⟩ .rfl
  | move | write => exact hquiet ⟨rfl, rfl⟩ Hand.locks_put
  | take hfree hp hop =>
    simp [Hand.Locks, hfree, Operation.createsAt, hop, Except.isOk, Except.toBool]
  | give hlock hop =>
    simp [Hand.Locks, hlock, Operation.createsAt, Operation.removesAt, hop, Except.isOk, Except.toBool]
  | begin hfree hp hop =>
    refine hquiet ⟨?_, rfl⟩ .rfl
    simp [Operation.createsAt, (hf.lockOf_ne_besides hp _).symm]
  | drop hheld hop =>
    obtain ⟨⟨p, k, hp, rfl⟩, -⟩ := hh.temporary _ _ hheld
    refine hquiet ⟨rfl, ?_⟩ .rfl
    simp [Operation.removesAt, (hf.lockOf_ne_besides hp k).symm]

/-- **The file of a lock is removed by a run that has the lock.** -/
theorem Move.locks_of_removesAt (hm : Move R h op w h') (hh : h.Holds R w.tree) (hf : IsSource f)
    (hremove : op.removesAt (lockOf f).place w = true) : h.Locks (lockOf f).place := by
  cases hm with
  | look hop | miss hop =>
    rw [(hop.quiet w _).2] at hremove
    cases hremove
  | refuse hop =>
    rw [(hop.quiet _).2] at hremove
    cases hremove
  | read | makeDir | take | begin | fill | move | write => cases hremove
  | give hlock hop =>
    rw [Operation.removesAt, Bool.and_eq_true, decide_eq_true_iff] at hremove
    exact ⟨_, hlock, hremove.1⟩
  | drop hheld hop =>
    obtain ⟨⟨p, k, hp, rfl⟩, -⟩ := hh.temporary _ _ hheld
    rw [Operation.removesAt, Bool.and_eq_true, decide_eq_true_iff] at hremove
    exact absurd hremove.1.symm (hf.lockOf_ne_besides hp k)

/-- What is at the place of a lock changes only as a run takes it or gives it back. -/
theorem Move.entryAt_lock (hm : Move R h op w h') (hh : h.Holds R w.tree) (hf : IsSource f) :
    (h.Locks (lockOf f).place ∨ h'.Locks (lockOf f).place) ∨
      (op.run w).2.tree.entryAt (lockOf f).place = w.tree.entryAt (lockOf f).place ∨
        w.tree.entryAt (lockOf f).place = none ∧
          (op.run w).2.tree.entryAt (lockOf f).place = some .directory := by
  obtain ⟨⟨qs, hchange, hqs⟩, -, -⟩ := hm.change hh
  by_cases hmem : (lockOf f).place ∈ qs
  · left
    rcases hqs _ hmem with htoken | ⟨htoken, -⟩ | ⟨p, t, hplace, hsaved⟩
    · exact .inl ((hh.mem_tokens_iff hf).mp htoken)
    · exact .inr (((hm.holds hh).mem_tokens_iff hf).mp htoken)
    · obtain ⟨bytes, hmay, -⟩ := hm.of_saved hh hsaved
      exact absurd hplace.symm (hmay.isSource.ne_lockOf hf)
  · exact .inr (hchange.others _ hmem)

/-! ## What moves do to source files -/

/-- A source file that is not written holds what it has held. -/
theorem Move.fileAt_eq (hm : Move R h op w h') (hh : h.Holds R w.tree) (hf : IsSource f)
    (hnot : op.savesAt w f.place = false) :
    (op.run w).2.tree.fileAt f.place = w.tree.fileAt f.place := by
  obtain ⟨⟨qs, hchange, hqs⟩, -, -⟩ := hm.change hh
  refine hchange.fileAt_eq fun hmem => ?_
  rcases hqs _ hmem with htoken | ⟨htoken, -⟩ | ⟨p, t, hplace, hsaved⟩
  · exact hh.ne_of_mem_tokens htoken hf rfl
  · exact (hm.holds hh).ne_of_mem_tokens htoken hf rfl
  · rw [Operation.savesAt_iff.mpr ⟨p, t, hsaved, hplace.symm⟩] at hnot
    cases hnot

/-- **A file of one's own is written as an edit of what it holds**, by a run that has its lock and has
read it. -/
theorem Move.edit_of_saved (hm : Move R h op w h') (hh : h.Holds R w.tree) (hlocks : R.locks = true)
    {p : Path} {t : Tree} (hsaved : op.saved w = some (p, t)) (hsole : ¬ R.shared p.place) :
    ∃ l bytes, h.lock = some l ∧ l.file = p ∧ l.isRead = true ∧
      R.edits p (w.tree.fileAt p.place) bytes ∧ (op.run w).2.tree.fileAt p.place = some bytes := by
  obtain ⟨bytes, ⟨held, hedit, hknows⟩ | ⟨e, hstub, -⟩, rfl, hread⟩ := hm.of_saved hh hsaved
  · obtain ⟨l, hl, rfl, hisRead, hcontent⟩ := hknows hlocks
    refine ⟨l, bytes, hl, rfl, hisRead, ?_, fileAt_of_read hread⟩
    rwa [(hh.lock l hl).2.2 hsole, hcontent hsole]
  · exact absurd (R.shared_of_stubs e p bytes hstub) hsole

/-- What a run has read behind its lock has been read now, or has been before and is not written. -/
theorem Move.isRead_cases (hm : Move R h op w h') (hh : h.Holds R w.tree) {l' : Lock}
    (hl' : h'.lock = some l') (hread : l'.isRead = true) :
    op.readsAt l'.file.place = true ∨ op.savesAt w l'.file.place = false ∧
      ∃ l, h.lock = some l ∧ l.isRead = true ∧ l.file = l'.file := by
  have hsame : op.saved w = none → h'.lock = h.lock → op.savesAt w l'.file.place = false ∧
      ∃ l, h.lock = some l ∧ l.isRead = true ∧ l.file = l'.file := fun hnone hlock =>
    ⟨by rw [Operation.savesAt, hnone]; rfl, l', hlock ▸ hl', hread, rfl⟩
  have hput : ∀ (p : Path) (bytes : Bytes) (t : Tree), op.saved w = some (p, t) →
      h' = h.put p bytes t → op.savesAt w l'.file.place = false ∧
        ∃ l, h.lock = some l ∧ l.isRead = true ∧ l.file = l'.file := by
    rintro p bytes t hsaved rfl
    obtain ⟨l, hl, rfl⟩ := Option.map_eq_some_iff.mp hl'
    by_cases hplace : p.place = l.file.place
    · rw [Lock.after, if_pos hplace] at hread
      cases hread
    · rw [Lock.after, if_neg hplace] at hread ⊢
      exact ⟨by simp [Operation.savesAt, hsaved, hplace], l, hl, hread, rfl⟩
  cases hm with
  | look hop | miss hop => exact .inr (hsame (hop.saved_eq w) rfl)
  | refuse hop => exact .inr (hsame hop.saved_eq rfl)
  | read hlock =>
    cases hl'
    exact .inl (decide_eq_true rfl)
  | makeDir | begin | drop => exact .inr (hsame rfl rfl)
  | take =>
    cases hl'
    cases hread
  | give => cases hl'
  | fill hheld hop =>
    obtain ⟨⟨p, k, hp, rfl⟩, -⟩ := hh.temporary _ _ hheld
    refine .inr (hsame ?_ rfl)
    rw [Operation.saved, if_neg (not_suffix_name_besides hp k)]
  | move hheld hmay hop => exact .inr (hput _ _ _ (saved_of_rename hop) rfl)
  | write hfree hmay hop => exact .inr (hput _ _ _ (saved_of_write hmay.isSource hop) rfl)

end

/-! ## Programs on one tree -/

/-- An operation that has been performed, by whom, and on which files. -/
structure Act (ι : Type) where
  who : ι
  op : Operation
  world : World

/-- Programs that work on one tree, and what they have done so far, latest first. -/
structure Interleaved (ι α : Type) where
  programs : ι → Program α
  world : World
  past : List (Act ι) := []

section

variable {ι α : Type}

/-! ## What can be told from what has been done -/

/-- **A run is between taking the lock at a place and giving it back.** -/
def Locked (i : ι) (x : Place) : List (Act ι) → Prop
  | [] => False
  | a :: past => a.who = i ∧ a.op.createsAt x a.world = true ∨
      Locked i x past ∧ ¬ (a.who = i ∧ a.op.removesAt x a.world = true)

/-- **A run has read the file at a place, and nobody has written it since.** -/
def HasRead (i : ι) (q : Place) : List (Act ι) → Prop
  | [] => False
  | a :: past => a.who = i ∧ a.op.readsAt q = true ∨
      a.op.savesAt a.world q = false ∧ HasRead i q past

/-- **What a file comes to hold by the edits of those who have written it**, one after another. -/
inductive Replays (edits : ι → Option Bytes → Bytes → Prop) (q : Place) (start : Option Bytes) :
    List (Act ι) → Option Bytes → Prop
  | start : Replays edits q start [] start
  | edit {a : Act ι} {past : List (Act ι)} {held : Option Bytes} {bytes : Bytes}
      (saves : a.op.savesAt a.world q = true) (rest : Replays edits q start past held)
      (edit : edits a.who held bytes) : Replays edits q start (a :: past) (some bytes)
  | other {a : Act ι} {past : List (Act ι)} {held : Option Bytes}
      (saves : a.op.savesAt a.world q = false) (rest : Replays edits q start past held) :
      Replays edits q start (a :: past) held

/-- Weaker edits make the same of a file. -/
theorem Replays.imp {edits edits' : ι → Option Bytes → Bytes → Prop} {q : Place}
    {start held : Option Bytes} {past : List (Act ι)} (h : Replays edits q start past held)
    (himp : ∀ i held bytes, edits i held bytes → edits' i held bytes) :
    Replays edits' q start past held := by
  induction h with
  | start => exact .start
  | edit saves rest edit ih => exact .edit saves ih (himp _ _ _ edit)
  | other saves rest ih => exact .other saves ih

variable [DecidableEq ι]

instance decidableLocked (i : ι) (x : Place) : (past : List (Act ι)) → Decidable (Locked i x past)
  | [] => .isFalse id
  | _ :: past =>
    have := decidableLocked i x past
    inferInstanceAs (Decidable (_ ∨ _))

/-- The files that a run has written, in order, each with the tree that this has left. -/
def savesOf (i : ι) : List (Act ι) → List (Path × Tree)
  | [] => []
  | a :: past => savesOf i past ++ if a.who = i then (a.op.saved a.world).toList else []

/-! ## Steps of programs -/

/-- One of the programs performs its next operation, if it has not ended. -/
def Interleaved.step (s : Interleaved ι α) (i : ι) : Interleaved ι α :=
  match s.programs i with
  | .done _ => s
  | .step op next => {
      programs := Function.update s.programs i (next (op.run s.world).1)
      world := (op.run s.world).2
      past := ⟨i, op, s.world⟩ :: s.past }

/-- The programs perform operations in the order of a schedule. -/
def Interleaved.run (s : Interleaved ι α) (schedule : List ι) : Interleaved ι α :=
  schedule.foldl Interleaved.step s

/-! ## What the programs have in hand -/

/-- Rules for runs side by side: files are locked, and it is agreed which ones are not. -/
structure Rules.Fit (R : ι → Rules) (shared : Place → Prop) : Prop where
  locks : ∀ i, (R i).locks = true
  alone : ∀ i, (R i).alone = false
  shared : ∀ i, (R i).shared = shared

/-- **What each program has in hand, and how this shows in what has been done.** -/
structure Orderly (R : ι → Rules) (post : ι → α → Hand → Prop) (s : Interleaved ι α)
    (hands : ι → Hand) : Prop where
  follows : ∀ i, (s.programs i).Follows (R i) (post i) (hands i)
  holds : ∀ i, (hands i).Holds (R i) s.world.tree
  /-- Nothing is in two hands. -/
  apart : ∀ i j, i ≠ j → ∀ x ∈ (hands i).tokens, x ∉ (hands j).tokens
  puts : ∀ i, (hands i).puts = savesOf i s.past
  locked : ∀ i f, IsSource f →
    ((hands i).Locks (lockOf f).place ↔ Locked i (lockOf f).place s.past)
  read : ∀ i l, (hands i).lock = some l → l.isRead = true → ¬ (R i).shared l.file.place →
    HasRead i l.file.place s.past

section

variable {R : ι → Rules} {shared : Place → Prop} {post : ι → α → Hand → Prop}
  {s : Interleaved ι α} {hands : ι → Hand}

theorem Orderly.start {p : ι → Program α} {w : World}
    (hp : ∀ i, (p i).Follows (R i) (post i) {}) : Orderly R post ⟨p, w, []⟩ fun _ => {} where
  follows := hp
  holds _ := Hand.holds_empty _ _
  apart _ _ _ _ hx := (List.not_mem_nil hx).elim
  puts _ := rfl
  locked _ _ _ := ⟨fun ⟨_, hl, _⟩ => (nomatch hl), fun h => h.elim⟩
  read _ _ hl := nomatch hl

/-- A program that has ended is done. -/
theorem Interleaved.step_done {i : ι} {a : α} (hprogram : s.programs i = .done a) : s.step i = s := by
  simp only [Interleaved.step, hprogram]

section

variable (hR : Rules.Fit R shared) (hs : Orderly R post s hands) {i : ι} {op : Operation} {h' : Hand}
  (hm : Move (R i) (hands i) op s.world h')

include hR hs hm

/-- What the others have in hand stays there, and apart. -/
theorem Orderly.stable {j : ι} (hne : i ≠ j) :
    (hands j).Holds (R j) (op.run s.world).2.tree ∧ ∀ x ∈ h'.tokens, x ∉ (hands j).tokens := by
  refine hm.stable (hs.holds i) (hs.holds j) (hs.apart i j hne) (hR.locks i) (hR.alone j) fun q hq => ?_
  rw [hR.shared] at hq ⊢
  exact hq

/-- What has been read behind a lock has been read and not been written since. -/
theorem Orderly.read_step (j : ι) (l : Lock) (hl : (Function.update hands i h' j).lock = some l)
    (hread : l.isRead = true) (hsole : ¬ (R j).shared l.file.place) :
    HasRead j l.file.place (⟨i, op, s.world⟩ :: s.past) := by
  by_cases hji : j = i
  · subst hji
    rw [Function.update_self] at hl
    rcases hm.isRead_cases (hs.holds j) hl hread with hreads | ⟨hnot, l₀, hl₀, hread₀, hfile⟩
    · exact .inl ⟨rfl, hreads⟩
    · exact .inr ⟨hnot, hfile ▸ hs.read j l₀ hl₀ hread₀ (hfile.symm ▸ hsole)⟩
  · rw [Function.update_of_ne hji] at hl
    refine .inr ⟨?_, hs.read j l hl hread hsole⟩
    rw [Bool.eq_false_iff]
    intro hsaves
    obtain ⟨p, t, hsaved, hplace⟩ := Operation.savesAt_iff.mp hsaves
    refine hm.saved_ne (hs.holds i) (hs.apart i j (Ne.symm hji)) (hR.locks i) hl
      ((hs.holds j).lock l hl).1 ?_ hsaved hplace
    rwa [hR.shared, ← hR.shared j]

end

/-- **An operation of one of the programs is a move**, and keeps up what they have in hand. -/
theorem Orderly.step (hR : Rules.Fit R shared) (hs : Orderly R post s hands) {i : ι} {op : Operation}
    {next : op.Answer → Program α} (hprogram : s.programs i = .step op next) :
    ∃ h', Move (R i) (hands i) op s.world h' ∧
      s.step i = ⟨Function.update s.programs i (next (op.run s.world).1), (op.run s.world).2,
        ⟨i, op, s.world⟩ :: s.past⟩ ∧
      Orderly R post (s.step i) (Function.update hands i h') := by
  have hfollows := hs.follows i
  rw [hprogram] at hfollows
  obtain ⟨h', hm, hnext⟩ := hfollows s.world (hs.holds i)
  have hstep : s.step i = ⟨Function.update s.programs i (next (op.run s.world).1),
      (op.run s.world).2, ⟨i, op, s.world⟩ :: s.past⟩ := by
    simp only [Interleaved.step, hprogram]
  refine ⟨h', hm, hstep, ?_⟩
  rw [hstep]
  -- in each field: the program itself, by its move, and the others, of which nothing is touched
  refine ⟨fun j => ?_, ?_, ?_, ?_, ?_, hs.read_step hR hm⟩
  · by_cases hji : j = i
    · subst hji
      simpa only [Function.update_self] using hnext
    · dsimp only
      rw [Function.update_of_ne hji, Function.update_of_ne hji]
      exact hs.follows j
  · exact (Function.forall_update_iff hands fun j h => h.Holds (R j) (op.run s.world).2.tree).mpr
      ⟨hm.holds (hs.holds i), fun j hne => (hs.stable hR hm hne.symm).1⟩
  · intro j k hne x hx hmem
    by_cases hji : j = i
    · subst hji
      rw [Function.update_self] at hx
      rw [Function.update_of_ne hne.symm] at hmem
      exact (hs.stable hR hm hne).2 x hx hmem
    · rw [Function.update_of_ne hji] at hx
      by_cases hki : k = i
      · subst hki
        rw [Function.update_self] at hmem
        exact (hs.stable hR hm hne.symm).2 x hmem hx
      · rw [Function.update_of_ne hki] at hmem
        exact hs.apart j k hne x hx hmem
  · refine (Function.forall_update_iff hands fun j h =>
      h.puts = savesOf j (⟨i, op, s.world⟩ :: s.past)).mpr ⟨?_, fun j hne => ?_⟩
    · rw [savesOf, if_pos rfl, hm.puts_eq (hs.holds i), hs.puts i]
    · rw [savesOf, if_neg hne.symm, List.append_nil, hs.puts j]
  · refine (Function.forall_update_iff hands fun j h => ∀ f, IsSource f →
      (h.Locks (lockOf f).place ↔ Locked j (lockOf f).place (⟨i, op, s.world⟩ :: s.past))).mpr
      ⟨fun f hf => ?_, fun j hne f hf => ?_⟩
    · rw [hm.locks_iff (hs.holds i) hf, hs.locked i f hf]
      simp [Locked]
    · rw [hs.locked j f hf]
      simp [Locked, hne.symm]

/-! ## What has been done, as the files show it -/

/-- **Files have been read and written one run after another.** -/
structure Serial (R : ι → Rules) (shared : Place → Prop) (t₀ : Tree) (s : Interleaved ι α) : Prop where
  /-- Not two runs have one lock. -/
  exclusive : ∀ i j f, IsSource f → Locked i (lockOf f).place s.past →
    Locked j (lockOf f).place s.past → i = j
  /-- A file is written by a run that has its lock and has read it, and nobody has written it since. -/
  written : ∀ later a earlier, s.past = later ++ a :: earlier → ∀ q, ¬ shared q →
    a.op.savesAt a.world q = true → HasRead a.who q earlier ∧
      ∃ f, IsSource f ∧ f.place = q ∧ Locked a.who (lockOf f).place earlier
  /-- The file of a lock is removed by a run that has taken the lock. -/
  removed : ∀ later a earlier, s.past = later ++ a :: earlier → ∀ f, IsSource f →
    a.op.removesAt (lockOf f).place a.world = true → Locked a.who (lockOf f).place earlier
  /-- A lock is taken only if nobody has had it at the beginning. -/
  fresh : ∀ i f, IsSource f → Locked i (lockOf f).place s.past →
    t₀.entryAt (lockOf f).place = none
  /-- Where nobody has a lock there is what has been there at the beginning. -/
  kept : ∀ f, IsSource f → (∀ i, ¬ Locked i (lockOf f).place s.past) →
    s.world.tree.entryAt (lockOf f).place = t₀.entryAt (lockOf f).place ∨
      t₀.entryAt (lockOf f).place = none ∧ s.world.tree.entryAt (lockOf f).place = some .directory
  /-- A file holds what the edits of those who have written it make of what it has held. -/
  replays : ∀ f, IsSource f → ¬ shared f.place →
    Replays (fun i held bytes => ∃ p, p.place = f.place ∧ (R i).edits p held bytes) f.place
      (t₀.fileAt f.place) s.past (s.world.tree.fileAt f.place)

omit [DecidableEq ι] in
theorem Serial.start {p : ι → Program α} {w : World} : Serial R shared w.tree ⟨p, w, []⟩ where
  exclusive _ _ _ _ h := h.elim
  written _ _ _ h := by cases List.append_eq_nil_iff.mp h.symm |>.2
  removed _ _ _ h := by cases List.append_eq_nil_iff.mp h.symm |>.2
  fresh _ _ _ h := h.elim
  kept _ _ _ := .inl rfl
  replays _ _ _ := .start

/-- Of what has been done something is the last, or has been done before. -/
theorem forall_split_cons {β : Type} {P : β → List β → Prop} {b : β} {past : List β}
    (hlast : P b past) (hbefore : ∀ later a earlier, past = later ++ a :: earlier → P a earlier)
    (later : List β) (a : β) (earlier : List β) (h : b :: past = later ++ a :: earlier) :
    P a earlier := by
  cases later with
  | nil =>
    obtain ⟨rfl, rfl⟩ := List.cons.inj h
    exact hlast
  | cons c later => exact hbefore later a earlier (List.cons.inj h).2

section

variable {t₀ : Tree} (hR : Rules.Fit R shared) (hs : Orderly R post s hands)
  (hserial : Serial R shared t₀ s) {i : ι} {op : Operation} {h' : Hand}
  (hm : Move (R i) (hands i) op s.world h')

include hs

/-- Two programs do not have one lock in hand. -/
theorem Orderly.exclusive {j k : ι} {f : Path} (hf : IsSource f)
    (hj : Locked j (lockOf f).place s.past) (hk : Locked k (lockOf f).place s.past) : j = k := by
  by_contra hne
  refine hs.apart j k hne _ (((hs.holds j).mem_tokens_iff hf).mpr ?_)
    (((hs.holds k).mem_tokens_iff hf).mpr ?_)
  · exact (hs.locked j f hf).mpr hj
  · exact (hs.locked k f hf).mpr hk

include hm

include hR in
/-- **A file is written by a run that has its lock and has read it.** -/
theorem Orderly.written_step (q : Place) (hsole : ¬ shared q) (hsaves : op.savesAt s.world q = true) :
    (HasRead i q s.past ∧ ∃ f, IsSource f ∧ f.place = q ∧ Locked i (lockOf f).place s.past) ∧
      ∃ p bytes, p.place = q ∧ (R i).edits p (s.world.tree.fileAt q) bytes ∧
        (op.run s.world).2.tree.fileAt q = some bytes := by
  obtain ⟨p, t, hsaved, rfl⟩ := Operation.savesAt_iff.mp hsaves
  rw [← hR.shared i] at hsole
  obtain ⟨l, bytes, hl, rfl, hread, hedit, hfile⟩ :=
    hm.edit_of_saved (hs.holds i) (hR.locks i) hsaved hsole
  have hsource := ((hs.holds i).lock l hl).1
  exact ⟨⟨hs.read i l hl hread hsole, l.file, hsource, rfl, (hs.locked i _ hsource).mp ⟨l, hl, rfl⟩⟩,
    l.file, bytes, rfl, hedit, hfile⟩

variable {programs : ι → Program α} (hs' : Orderly R post
    ⟨programs, (op.run s.world).2, ⟨i, op, s.world⟩ :: s.past⟩ (Function.update hands i h'))

include hserial hs'

/-- A lock that has been taken now was not there at the beginning. -/
theorem Orderly.fresh_step (j : ι) (f : Path) (hf : IsSource f)
    (hlocked : Locked j (lockOf f).place (⟨i, op, s.world⟩ :: s.past)) :
    t₀.entryAt (lockOf f).place = none := by
  by_cases hbefore : Locked j (lockOf f).place s.past
  · exact hserial.fresh j f hf hbefore
  have hlocks := (hs'.locked j f hf).mpr hlocked
  by_cases hji : j = i
  · subst hji
    rw [Function.update_self] at hlocks
    have hnot := mt (hs.locked j f hf).mp hbefore
    have hnone : s.world.tree.entryAt (lockOf f).place = none := by
      refine ((hm.change (hs.holds j)).gained _ ?_).resolve_left ?_
      · exact ((hm.holds (hs.holds j)).mem_tokens_iff hf).mpr hlocks
      · exact mt ((hs.holds j).mem_tokens_iff hf).mp hnot
    have hfree : ∀ k, ¬ Locked k (lockOf f).place s.past := by
      intro k hk
      obtain ⟨bytes, hfile⟩ := (hs.holds k).exists_of_mem_tokens
        (((hs.holds k).mem_tokens_iff hf).mpr ((hs.locked k f hf).mpr hk))
      rw [hnone] at hfile
      cases hfile
    rcases hserial.kept f hf hfree with hsame | ⟨hnone₀, -⟩
    · exact hsame ▸ hnone
    · exact hnone₀
  · rw [Function.update_of_ne hji] at hlocks
    exact absurd ((hs.locked j f hf).mp hlocks) hbefore

/-- Where nobody has a lock now there is what has been there at the beginning. -/
theorem Orderly.kept_step (f : Path) (hf : IsSource f)
    (hfree : ∀ j, ¬ Locked j (lockOf f).place (⟨i, op, s.world⟩ :: s.past)) :
    (op.run s.world).2.tree.entryAt (lockOf f).place = t₀.entryAt (lockOf f).place ∨
      t₀.entryAt (lockOf f).place = none ∧
        (op.run s.world).2.tree.entryAt (lockOf f).place = some .directory := by
  have hnot : ¬ h'.Locks (lockOf f).place := by
    have hlocked := mt (hs'.locked i f hf).mp (hfree i)
    rwa [Function.update_self] at hlocked
  by_cases hlocks : (hands i).Locks (lockOf f).place
  · -- it has been given back
    left
    rw [hserial.fresh i f hf ((hs.locked i f hf).mp hlocks)]
    refine ((hm.change (hs.holds i)).lost _ ?_).resolve_left ?_
    · exact ((hs.holds i).mem_tokens_iff hf).mpr hlocks
    · exact mt ((hm.holds (hs.holds i)).mem_tokens_iff hf).mp hnot
  · have hbefore : ∀ j, ¬ Locked j (lockOf f).place s.past := by
      intro j hj
      have hj' := (hs.locked j f hf).mpr hj
      by_cases hji : j = i
      · exact hlocks (hji ▸ hj')
      · refine hfree j ((hs'.locked j f hf).mp ?_)
        rwa [Function.update_of_ne hji]
    rcases hm.entryAt_lock (hs.holds i) hf with (hmine | hmine) | hsame | ⟨hnone, hdir⟩
    · exact absurd hmine hlocks
    · exact absurd hmine hnot
    · rw [hsame]
      exact hserial.kept f hf hbefore
    · rcases hserial.kept f hf hbefore with hsame | ⟨-, hdir'⟩
      · exact .inr ⟨hsame ▸ hnone, hdir⟩
      · rw [hnone] at hdir'
        cases hdir'

end

/-- **An operation of one of the programs keeps it up** that they go one after another. -/
theorem Serial.step {t₀ : Tree} (hR : Rules.Fit R shared) (hs : Orderly R post s hands)
    (hserial : Serial R shared t₀ s) {i : ι} {op : Operation} {next : op.Answer → Program α}
    (hprogram : s.programs i = .step op next) : Serial R shared t₀ (s.step i) := by
  obtain ⟨h', hm, hstep, hs'⟩ := hs.step hR hprogram
  rw [hstep] at hs' ⊢
  refine ⟨fun j k f hf => hs'.exclusive hf, ?_, ?_, hs.fresh_step hserial hm hs',
    hs.kept_step hserial hm hs', fun f hf hsole => ?_⟩
  · exact forall_split_cons (fun q hsole hsaves => (hs.written_step hR hm q hsole hsaves).1)
      hserial.written
  · refine forall_split_cons (fun f hf hremoves => ?_) hserial.removed
    exact (hs.locked i f hf).mp (hm.locks_of_removesAt (hs.holds i) hf hremoves)
  · cases hsaves : op.savesAt s.world f.place with
    | true =>
      obtain ⟨-, p, bytes, hplace, hedit, hfile⟩ := hs.written_step hR hm f.place hsole hsaves
      dsimp only
      rw [hfile]
      exact .edit hsaves (hserial.replays f hf hsole) ⟨p, hplace, hedit⟩
    | false =>
      dsimp only
      rw [hm.fileAt_eq (hs.holds i) hf hsaves]
      exact .other hsaves (hserial.replays f hf hsole)

/-- **However programs that lock files are run side by side**, they read and write files one after
another. -/
theorem Serial.run (hR : Rules.Fit R shared) {p : ι → Program α} {w : World}
    (hp : ∀ i, (p i).Follows (R i) (post i) {}) (schedule : List ι) :
    Serial R shared w.tree ((⟨p, w, []⟩ : Interleaved ι α).run schedule) ∧
      ∃ hands, Orderly R post ((⟨p, w, []⟩ : Interleaved ι α).run schedule) hands := by
  have hrun : ∀ (schedule : List ι) (s : Interleaved ι α), Serial R shared w.tree s →
      (∃ hands, Orderly R post s hands) → Serial R shared w.tree (s.run schedule) ∧
        ∃ hands, Orderly R post (s.run schedule) hands := by
    intro schedule
    induction schedule with
    | nil => exact fun s hserial hs => ⟨hserial, hs⟩
    | cons i schedule ih =>
      rintro s hserial ⟨hands, hs⟩
      refine ih (s.step i) ?_ ?_
      · cases hprogram : s.programs i with
        | done a => rwa [Interleaved.step_done hprogram]
        | step op next => exact hserial.step hR hs hprogram
      · cases hprogram : s.programs i with
        | done a =>
          rw [Interleaved.step_done hprogram]
          exact ⟨hands, hs⟩
        | step op next =>
          obtain ⟨h', -, -, hs'⟩ := hs.step hR hprogram
          exact ⟨_, hs'⟩
  exact hrun schedule _ .start ⟨_, .start hp⟩

end

end

end EntityScaffold.Storage
