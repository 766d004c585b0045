import EntityScaffold.Proofs.Storage.OwnFiles

/-!
# Where paths lead

A path that leads to a place at all leads to one and the same place in every tree.  So what an
operation changes can be told from its paths, and what it leaves from the places of others.

* `Path.place` — the place that a path leads to; `place_of_locate`.
* `Tree.fileAt` — what the file at a place holds.
* `IsSource`, `lockOf`, `besides` — source files, their locks, and the files written to be moved there;
  no two of these are at one place.
* `OnlyAt` — of two trees: what is at other places is left as it was; `OnlyAt.read_eq`.
-/

set_option autoImplicit false

namespace EntityScaffold

open Text

namespace Path

open Storage

/-- The place that a name leads to from another one. -/
def placeStep (q : Place) (name : Text) : Place :=
  if name = ".." then (if Tree.isFixed q then Tree.outside else q.dropLast) else q ++ [name]

/-- The place that a path leads to, if it leads anywhere. -/
def place (p : Path) : Place :=
  p.parts.foldl placeStep (if p.root = [] then [] else Tree.outside)

theorem place_entry {p : Path} {name : Text} (hname : name ≠ "..") :
    (p.entry name).place = p.place ++ [name] := by
  rw [place, entry, List.foldl_append, List.foldl_cons, List.foldl_nil, placeStep, if_neg hname]
  rfl

end Path

namespace Storage

section

variable {t t' t'' : Tree} {p q : Path} {place : Place} {bytes : Bytes}

/-! ## The place of a path -/

theorem placeStep_of_follow {x y : Place} {name : Text} (h : t.follow x name = .ok y) :
    y = Path.placeStep x name := by
  unfold Tree.follow at h
  split at h
  · cases h
  · cases h
  · rw [Path.placeStep]
    split at h
    · rename_i hdots
      cases h
      rw [if_pos hdots]
    · rename_i hdots
      rw [if_neg hdots]
      split at h
      · cases h
      · cases h
        rfl

/-- **A path leads to its place**, or nowhere. -/
theorem place_of_locate (h : t.locate p = .ok place) : place = p.place := by
  have hfold : ∀ (parts : List Text) (x : Place), parts.foldlM t.follow x = .ok place →
      place = parts.foldl Path.placeStep x := by
    intro parts
    induction parts with
    | nil =>
      intro x hx
      cases hx
      rfl
    | cons part parts ih =>
      intro x hx
      rw [List.foldlM_cons] at hx
      cases hf : t.follow x part with
      | error e =>
        rw [hf] at hx
        cases hx
      | ok y =>
        rw [hf] at hx
        rw [List.foldl_cons, ← placeStep_of_follow hf]
        exact ih y hx
  unfold Tree.locate at h
  split at h
  · cases h
  · split at h
    · cases h
    · exact hfold p.parts _ h

theorem read_iff :
    t.read p = .ok bytes ↔ t.locate p = .ok p.place ∧ t.entryAt p.place = some (.file bytes) := by
  rw [read_eq_ok]
  constructor
  · rintro ⟨place, hplace, hfile⟩
    obtain rfl := place_of_locate hplace
    exact ⟨hplace, hfile⟩
  · rintro ⟨hplace, hfile⟩
    exact ⟨_, hplace, hfile⟩

/-! ## What files hold -/

/-- What the file at a place holds, if a file is there. -/
def Tree.fileAt (t : Tree) (q : Place) : Option Bytes :=
  match t.entryAt q with
  | some (.file bytes) => some bytes
  | _ => none

theorem fileAt_eq_some : t.fileAt place = some bytes ↔ t.entryAt place = some (.file bytes) := by
  rw [Tree.fileAt]
  rcases t.entryAt place with _ | _ | held <;> simp

theorem fileAt_of_read (h : t.read p = .ok bytes) : t.fileAt p.place = some bytes :=
  fileAt_eq_some.mpr (read_iff.mp h).2

/-- What a place comes to hold when a directory is made where nothing was. -/
theorem fileAt_eq_of_grown (h : t'.entryAt place = t.entryAt place ∨
    t.entryAt place = none ∧ t'.entryAt place = some .directory) :
    t'.fileAt place = t.fileAt place := by
  rw [Tree.fileAt, Tree.fileAt]
  rcases h with h | ⟨hnone, hdir⟩
  · rw [h]
  · rw [hnone, hdir]

/-! ## Changes at certain places -/

/-- What is at other places than these is left as it was, but for directories where nothing was; and
no directory goes. -/
structure OnlyAt (qs : List Place) (t t' : Tree) : Prop where
  firm : Firm t t'
  others : ∀ q ∉ qs, t'.entryAt q = t.entryAt q ∨
    t.entryAt q = none ∧ t'.entryAt q = some .directory

theorem OnlyAt.refl (t : Tree) : OnlyAt [] t t := ⟨fun _ h => h, fun _ _ => .inl rfl⟩

theorem Untouched.onlyAt (h : Untouched t t') : OnlyAt [] t t' := ⟨h.firm, fun q _ => h q⟩

theorem onlyAt_set (e : Entry) (hdir : t.entryAt place ≠ some .directory) :
    OnlyAt [place] t (t.set place e) where
  firm := firm_set e hdir
  others q hq := .inl (entryAt_set_of_ne e fun h => hq (by simp [h]))

theorem onlyAt_erase (hdir : t.entryAt place ≠ some .directory) : OnlyAt [place] t (t.erase place) where
  firm := firm_erase hdir
  others q hq := .inl (entryAt_erase_of_ne fun h => hq (by simp [h]))

theorem OnlyAt.trans {qs qs' : List Place} (h : OnlyAt qs t t') (h' : OnlyAt qs' t' t'') :
    OnlyAt (qs ++ qs') t t'' where
  firm q hq := h'.firm q (h.firm q hq)
  others q hq := by
    rw [List.mem_append, not_or] at hq
    rcases h'.others q hq.2 with heq | ⟨hnone, hdir⟩
    · rw [heq]
      exact h.others q hq.1
    · rcases h.others q hq.1 with heq | ⟨-, hdir'⟩
      · exact .inr ⟨heq ▸ hnone, hdir⟩
      · rw [hnone] at hdir'
        cases hdir'

theorem OnlyAt.fileAt_eq {qs : List Place} (h : OnlyAt qs t t') (hq : place ∉ qs) :
    t'.fileAt place = t.fileAt place :=
  fileAt_eq_of_grown (h.others place hq)

/-- **A file at another place is read as before.** -/
theorem OnlyAt.read_eq {qs : List Place} (h : OnlyAt qs t t') (hq : p.place ∉ qs)
    (hread : t.read p = .ok bytes) : t'.read p = .ok bytes := by
  obtain ⟨hplace, hfile⟩ := read_iff.mp hread
  refine read_iff.mpr ⟨h.firm.locate_eq hplace, fileAt_eq_some.mp ?_⟩
  rw [h.fileAt_eq hq, fileAt_eq_some.mpr hfile]

/-! ## What operations change -/

theorem create_ok (h : t.create p bytes = .ok t') :
    t.entryAt p.place = none ∧ OnlyAt [p.place] t t' ∧ t'.read p = .ok bytes := by
  obtain ⟨place, hplace, hnone, rfl⟩ := create_eq_ok.mp h
  obtain rfl := place_of_locate hplace
  have hdir : t.entryAt p.place ≠ some .directory := by simp [hnone]
  exact ⟨hnone, onlyAt_set _ hdir,
    read_iff.mpr ⟨(firm_set _ hdir).locate_eq hplace, entryAt_set_self _ hdir⟩⟩

theorem write_ok (h : t.write p bytes = .ok t') :
    OnlyAt [p.place] t t' ∧ t'.read p = .ok bytes := by
  obtain ⟨place, hplace, hdir, rfl⟩ := write_eq_ok.mp h
  obtain rfl := place_of_locate hplace
  exact ⟨onlyAt_set _ hdir, read_write h⟩

theorem remove_ok (h : t.remove p = .ok t') :
    (∃ bytes, t.read p = .ok bytes) ∧ OnlyAt [p.place] t t' ∧ t'.entryAt p.place = none := by
  obtain ⟨place, bytes, hplace, hfile, rfl⟩ := remove_eq_ok.mp h
  obtain rfl := place_of_locate hplace
  have hdir : t.entryAt p.place ≠ some .directory := by simp [hfile]
  exact ⟨⟨bytes, read_iff.mpr ⟨hplace, hfile⟩⟩, onlyAt_erase hdir, entryAt_erase_self hdir⟩

/-- A file that is there can be removed. -/
theorem remove_of_read (h : t.read p = .ok bytes) : ∃ t', t.remove p = .ok t' := by
  obtain ⟨hplace, hfile⟩ := read_iff.mp h
  exact ⟨_, remove_eq_ok.mpr ⟨p.place, bytes, hplace, hfile, rfl⟩⟩

/-- Something is found at a path. -/
def Tree.Finds (t : Tree) (p : Path) : Prop := ∃ k, kindOf (t.look p) = .ok (some k)

/-- A file that is there is found. -/
theorem kind_of_read (h : t.read p = .ok bytes) : kindOf (t.look p) = .ok (some .file) := by
  obtain ⟨hplace, hfile⟩ := read_iff.mp h
  simp [Tree.look, hplace, hfile, kindOf, bind, Except.bind, pure, Except.pure]

theorem rename_ok (hread : t.read p = .ok bytes) (hne : p.place ≠ q.place)
    (h : t.rename p q = .ok t') :
    OnlyAt [p.place, q.place] t t' ∧ t'.read q = .ok bytes ∧ t'.entryAt p.place = none := by
  have hmoved := read_rename hread h
  obtain ⟨place, held, goal, hplace, hfile, hgoal, -, hdir, rfl⟩ := rename_eq_ok.mp h
  obtain rfl := place_of_locate hplace
  obtain rfl := place_of_locate hgoal
  have hsource : t.entryAt p.place ≠ some .directory := by simp [hfile]
  have herased : (t.erase p.place).entryAt q.place ≠ some .directory := by
    rwa [entryAt_erase_of_ne hne.symm]
  refine ⟨(onlyAt_erase hsource).trans (onlyAt_set _ herased), hmoved, ?_⟩
  rw [entryAt_set_of_ne _ hne, entryAt_erase_self hsource]

end

/-! ## Source files, locks, and files written to be moved -/

/-- Whether a path is that of a source file. -/
def IsSource (p : Path) : Prop := ∃ (d : Path) (n : Text), p = d.entry (n ++ ".php")

/-- The lock of a file. -/
def lockOf (p : Path) : Path := p.withName (p.name ++ ".lock")

section

variable {p q : Path} {k l : Nat}

theorem IsSource.place (h : IsSource p) :
    ∃ (d : Place) (n : Text), p.place = d ++ [n ++ ".php"] ∧
      (lockOf p).place = d ++ [n ++ ".php" ++ ".lock"] ∧
      ∀ k, (besides p k).place = d ++ [temporaryName (n ++ ".php") k] := by
  obtain ⟨d, n, rfl⟩ := h
  refine ⟨d.place, n, Path.place_entry (ne_dots (by simp)), ?_, fun k => ?_⟩
  · rw [lockOf, name_entry, withName_entry, Path.place_entry (ne_dots (by simp))]
  · rw [besides_entry, Path.place_entry (ne_dots ?_)]
    simp only [temporaryName, List.length_append]
    have htail : (".tmp" : Text).length = 4 := rfl
    omega

theorem IsSource.suffix_name (h : IsSource p) : (".php" : Text) <:+ p.name := by
  obtain ⟨d, n, rfl⟩ := h
  rw [name_entry]
  exact List.suffix_append n _

theorem append_singleton_ne {d d' : Place} {x y : Text} (h : x ≠ y) : d ++ [x] ≠ d' ++ [y] :=
  fun heq => h (by simpa using congrArg List.getLast? heq)

/-- **A lock is at no place of a source file.** -/
theorem IsSource.ne_lockOf (hp : IsSource p) (hq : IsSource q) : p.place ≠ (lockOf q).place := by
  obtain ⟨d, n, hplace, -, -⟩ := hp.place
  obtain ⟨d', n', -, hlock, -⟩ := hq.place
  rw [hplace, hlock]
  exact append_singleton_ne source_ne_lock

/-- **A file written to be moved is at no place of a source file.** -/
theorem IsSource.ne_besides (hp : IsSource p) (hq : IsSource q) (k : Nat) :
    p.place ≠ (besides q k).place := by
  obtain ⟨d, n, hplace, -, -⟩ := hp.place
  obtain ⟨d', n', -, -, hbesides⟩ := hq.place
  rw [hplace, hbesides]
  exact append_singleton_ne source_ne_temporary

/-- **A lock is at no place of a file written to be moved.** -/
theorem IsSource.lockOf_ne_besides (hp : IsSource p) (hq : IsSource q) (k : Nat) :
    (lockOf p).place ≠ (besides q k).place := by
  obtain ⟨d, n, -, hlock, -⟩ := hp.place
  obtain ⟨d', n', -, -, hbesides⟩ := hq.place
  rw [hlock, hbesides]
  exact append_singleton_ne lock_ne_temporary

/-- Files at one place have their locks at one place, and the other way round. -/
theorem IsSource.lockOf_inj (hp : IsSource p) (hq : IsSource q) :
    (lockOf p).place = (lockOf q).place ↔ p.place = q.place := by
  obtain ⟨d, n, hplace, hlock, -⟩ := hp.place
  obtain ⟨d', n', hplace', hlock', -⟩ := hq.place
  rw [hplace, hlock, hplace', hlock']
  constructor <;> intro h <;>
    · obtain ⟨rfl, h⟩ := List.append_inj' h rfl
      simpa using h

end

end Storage

end EntityScaffold
