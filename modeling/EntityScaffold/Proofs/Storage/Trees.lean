import EntityScaffold.Storage.Program

/-!
# What operations leave of a file

An operation on one file leaves the files of other names as they are, and no directory goes.

* `Kept n` — of two trees: directories stay, and files called `n` do with their bytes.
* `Kept.read_eq` — such a file is read as before.
* `read_write`, `read_rename` — a file that has been written is read back.
* `Operation.Within` — an operation on files at certain paths; `Operation.Within.kept`.
-/

set_option autoImplicit false

namespace EntityScaffold.Storage

open Text

/-! ## Places -/

/-- The last name of a place is that of the path that leads to it. -/
theorem follow_eq_append {t : Tree} {q place : Place} {name : Text} (hname : name ≠ "..")
    (h : t.follow q name = .ok place) : place = q ++ [name] := by
  unfold Tree.follow at h
  split at h
  · cases h
  · cases h
  · rw [if_neg hname] at h
    split at h
    · cases h
    · cases h
      rfl

theorem getLast?_of_locate {t : Tree} {p : Path} {place : Place} (hp : p.endsInName = true)
    (h : t.locate p = .ok place) : place.getLast? = some p.name := by
  unfold Tree.locate at h
  split at h
  · cases h
  · split at h
    · cases h
    · -- the last step follows the last name
      have hne : p.parts ≠ [] := by
        intro hn
        rw [Path.endsInName, hn] at hp
        cases hp
      obtain ⟨parts, last, hparts⟩ := List.eq_nil_or_concat p.parts |>.resolve_left hne
      rw [List.concat_eq_append] at hparts
      rw [Path.endsInName, hparts, List.getLast?_concat, Option.any_some, bne_iff_ne] at hp
      rw [hparts, List.foldlM_append] at h
      cases hq : parts.foldlM t.follow (if p.root = [] then [] else Tree.outside) with
      | error e =>
        rw [hq] at h
        cases h
      | ok q =>
        rw [hq] at h
        have hlast : t.follow q last = .ok place := by
          cases hf : t.follow q last with
          | error e =>
            simp only [List.foldlM_cons, bind, Except.bind, hf] at h
            cases h
          | ok r =>
            simp only [List.foldlM_cons, List.foldlM_nil, bind, Except.bind, hf] at h
            exact h
        rw [follow_eq_append hp hlast, Path.name, hparts, List.getLast?_concat,
          List.getLast?_concat]
        rfl

/-! ## What stays -/

/-- No directory goes. -/
def Firm (t t' : Tree) : Prop :=
  ∀ q, t.entryAt q = some .directory → t'.entryAt q = some .directory

/-- Directories stay, and so do files called `n`. -/
structure Kept (n : Text) (t t' : Tree) : Prop where
  directories : Firm t t'
  files : ∀ q bytes, q.getLast? = some n → t.entryAt q = some (.file bytes) →
    t'.entryAt q = some (.file bytes)

theorem Kept.refl (n : Text) (t : Tree) : Kept n t t := ⟨fun _ h => h, fun _ _ _ h => h⟩

theorem Kept.trans {n : Text} {t t' t'' : Tree} (h : Kept n t t') (h' : Kept n t' t'') :
    Kept n t t'' :=
  ⟨fun q hq => h'.directories q (h.directories q hq),
    fun q b hn hq => h'.files q b hn (h.files q b hn hq)⟩

section

variable {n : Text} {t t' : Tree}

theorem Firm.follow_eq (h : Firm t t') {q place : Place} {name : Text}
    (hf : t.follow q name = .ok place) : t'.follow q name = .ok place := by
  unfold Tree.follow at hf ⊢
  split at hf
  · cases hf
  · cases hf
  · rename_i hdir
    rw [h q hdir]
    exact hf

/-- A path leads to the same place. -/
theorem Firm.locate_eq (h : Firm t t') {p : Path} {place : Place}
    (hp : t.locate p = .ok place) : t'.locate p = .ok place := by
  have hfold : ∀ (parts : List Text) (q : Place), parts.foldlM t.follow q = .ok place →
      parts.foldlM t'.follow q = .ok place := by
    intro parts
    induction parts with
    | nil => exact fun q hq => hq
    | cons part parts ih =>
      intro q hq
      cases hf : t.follow q part with
      | error e =>
        simp only [List.foldlM_cons, bind, Except.bind, hf] at hq
        cases hq
      | ok r =>
        simp only [List.foldlM_cons, bind, Except.bind, hf] at hq
        simp only [List.foldlM_cons, bind, Except.bind, h.follow_eq hf]
        exact ih r hq
  unfold Tree.locate at hp ⊢
  split at hp
  · cases hp
  · rename_i hnul
    rw [if_neg hnul]
    split at hp
    · cases hp
    · rename_i hlong
      rw [if_neg hlong]
      exact hfold p.parts _ hp

theorem read_eq_ok {p : Path} {bytes : Bytes} :
    t.read p = .ok bytes ↔
      ∃ place, t.locate p = .ok place ∧ t.entryAt place = some (.file bytes) := by
  unfold Tree.read Tree.look
  cases hp : t.locate p with
  | error e => simp [bind, Except.bind]
  | ok place =>
    cases he : t.entryAt place with
    | none => simp [bind, Except.bind, pure, Except.pure, he]
    | some entry => cases entry <;> simp [bind, Except.bind, pure, Except.pure, he]

/-- **A file called `n` is read as before.** -/
theorem Kept.read_eq (h : Kept n t t') {p : Path} (hp : p.endsInName = true) (hn : p.name = n)
    {bytes : Bytes} (hread : t.read p = .ok bytes) : t'.read p = .ok bytes := by
  obtain ⟨place, hplace, hentry⟩ := read_eq_ok.mp hread
  have hlast : place.getLast? = some n := hn ▸ getLast?_of_locate hp hplace
  exact read_eq_ok.mpr ⟨place, h.directories.locate_eq hplace, h.files place bytes hlast hentry⟩

/-! ## Changes at one place -/

theorem firm_set {place : Place} (e : Entry) (hdir : t.entryAt place ≠ some .directory) :
    Firm t (t.set place e) := by
  intro q hq
  rw [Tree.entryAt_set]
  split
  · rfl
  · split
    · rename_i hplace
      rw [hplace] at hq
      exact absurd hq hdir
    · exact hq

theorem firm_erase {place : Place} (hdir : t.entryAt place ≠ some .directory) :
    Firm t (t.erase place) := by
  intro q hq
  rw [Tree.entryAt_erase]
  split
  · rfl
  · split
    · rename_i hplace
      rw [hplace] at hq
      exact absurd hq hdir
    · exact hq

theorem not_isFixed {place : Place} (hdir : t.entryAt place ≠ some .directory) :
    Tree.isFixed place = false := by
  cases h : Tree.isFixed place with
  | false => rfl
  | true => exact absurd (Tree.entryAt_of_isFixed t h) hdir

/-- Putting an entry where no directory was, and no file called `n`, keeps the rest. -/
theorem kept_set {place : Place} (e : Entry) (hdir : t.entryAt place ≠ some .directory)
    (hfile : place.getLast? = some n → t.entryAt place = none) : Kept n t (t.set place e) where
  directories := firm_set e hdir
  files q bytes hn hq := by
    rw [Tree.entryAt_set, if_neg (by
      rw [not_isFixed (t := t) (by rw [hq]; simp)]
      exact Bool.false_ne_true)]
    split
    · rename_i hplace
      rw [hplace] at hn hq
      rw [hfile hn] at hq
      cases hq
    · exact hq

/-- Removing a file not called `n` keeps the rest. -/
theorem kept_erase {place : Place} (hdir : t.entryAt place ≠ some .directory)
    (hname : place.getLast? ≠ some n) : Kept n t (t.erase place) where
  directories := firm_erase hdir
  files q bytes hn hq := by
    rw [Tree.entryAt_erase, if_neg (by
      rw [not_isFixed (t := t) (by rw [hq]; simp)]
      exact Bool.false_ne_true)]
    split
    · rename_i hplace
      rw [hplace] at hn
      exact absurd hn hname
    · exact hq

/-! ## The changes that operations make -/

theorem makeDir_eq_ok {p : Path} :
    t.makeDir p = .ok t' ↔ ∃ place, t.locate p = .ok place ∧ t.entryAt place = none ∧
      t' = t.set place .directory := by
  unfold Tree.makeDir Tree.look
  cases hp : t.locate p with
  | error e => simp [bind, Except.bind]
  | ok place =>
    cases he : t.entryAt place with
    | none => simp [bind, Except.bind, pure, Except.pure, he, eq_comm]
    | some entry => simp [bind, Except.bind, pure, Except.pure, he]

theorem create_eq_ok {p : Path} {bytes : Bytes} :
    t.create p bytes = .ok t' ↔ ∃ place, t.locate p = .ok place ∧ t.entryAt place = none ∧
      t' = t.set place (.file bytes) := by
  unfold Tree.create Tree.look
  cases hp : t.locate p with
  | error e => simp [bind, Except.bind]
  | ok place =>
    cases he : t.entryAt place with
    | none => simp [bind, Except.bind, pure, Except.pure, he, eq_comm]
    | some entry => simp [bind, Except.bind, pure, Except.pure, he]

theorem write_eq_ok {p : Path} {bytes : Bytes} :
    t.write p bytes = .ok t' ↔ ∃ place, t.locate p = .ok place ∧
      t.entryAt place ≠ some .directory ∧ t' = t.set place (.file bytes) := by
  unfold Tree.write Tree.look
  cases hp : t.locate p with
  | error e => simp [bind, Except.bind]
  | ok place =>
    cases he : t.entryAt place with
    | none => simp [bind, Except.bind, pure, Except.pure, he, eq_comm]
    | some entry => cases entry <;> simp [bind, Except.bind, pure, Except.pure, he, eq_comm]

theorem remove_eq_ok {p : Path} :
    t.remove p = .ok t' ↔ ∃ place bytes, t.locate p = .ok place ∧
      t.entryAt place = some (.file bytes) ∧ t' = t.erase place := by
  unfold Tree.remove Tree.look
  cases hp : t.locate p with
  | error e => simp [bind, Except.bind]
  | ok place =>
    cases he : t.entryAt place with
    | none => simp [bind, Except.bind, pure, Except.pure, he]
    | some entry => cases entry <;> simp [bind, Except.bind, pure, Except.pure, he, eq_comm]

theorem rename_eq_ok {source target : Path} :
    t.rename source target = .ok t' ↔ ∃ place bytes goal, t.locate source = .ok place ∧
      t.entryAt place = some (.file bytes) ∧ t.locate target = .ok goal ∧
      target.endsInName = true ∧ t.entryAt goal ≠ some .directory ∧
      t' = (t.erase place).set goal (.file bytes) := by
  unfold Tree.rename Tree.look
  cases hp : t.locate source with
  | error e => simp [bind, Except.bind]
  | ok place =>
    cases he : t.entryAt place with
    | none => simp [bind, Except.bind, pure, Except.pure, he]
    | some entry =>
      cases entry with
      | directory => simp [bind, Except.bind, pure, Except.pure, he]
      | file bytes =>
        cases hg : t.locate target with
        | error e => simp [bind, Except.bind, pure, Except.pure, he]
        | ok goal =>
          cases hend : target.endsInName with
          | false => simp [bind, Except.bind, pure, Except.pure, he]
          | true =>
            cases hge : t.entryAt goal with
            | none => simp [bind, Except.bind, pure, Except.pure, he, hge, eq_comm]
            | some entry =>
              cases entry <;> simp [bind, Except.bind, pure, Except.pure, he, hge, eq_comm]

/-! ## What has been written is read -/

theorem entryAt_set_self {place : Place} (e : Entry) (hdir : t.entryAt place ≠ some .directory) :
    (t.set place e).entryAt place = some e := by
  rw [Tree.entryAt_set, not_isFixed hdir, if_neg Bool.false_ne_true, if_pos rfl]

/-- **A file that has been written is read back.** -/
theorem read_write {p : Path} {bytes : Bytes} (h : t.write p bytes = .ok t') :
    t'.read p = .ok bytes := by
  obtain ⟨place, hplace, hdir, rfl⟩ := write_eq_ok.mp h
  exact read_eq_ok.mpr ⟨place, (firm_set _ hdir).locate_eq hplace, entryAt_set_self _ hdir⟩

/-- **A file that has been moved is read at its new path.** -/
theorem read_rename {source target : Path} {bytes : Bytes} (hread : t.read source = .ok bytes)
    (h : t.rename source target = .ok t') : t'.read target = .ok bytes := by
  obtain ⟨place, held, goal, hplace, hheld, hgoal, -, hdir, rfl⟩ := rename_eq_ok.mp h
  obtain ⟨place', hplace', hentry⟩ := read_eq_ok.mp hread
  rw [hplace] at hplace'
  cases hplace'
  rw [hheld] at hentry
  cases hentry
  have hsource : t.entryAt place ≠ some .directory := by
    rw [hheld]
    simp
  have herased : (t.erase place).entryAt goal ≠ some .directory := by
    rw [Tree.entryAt_erase, not_isFixed hdir, if_neg Bool.false_ne_true]
    split
    · simp
    · exact hdir
  exact read_eq_ok.mpr ⟨goal, (firm_set _ herased).locate_eq ((firm_erase hsource).locate_eq hgoal),
    entryAt_set_self _ herased⟩

/-! ## Operations on other files -/

/-- Whether a path ends in a name other than `n`. -/
def Apart (n : Text) (p : Path) : Prop := p.endsInName = true ∧ p.name ≠ n

theorem Apart.getLast? {p : Path} (h : Apart n p) {place : Place} (hp : t.locate p = .ok place) :
    place.getLast? ≠ some n := by
  rw [getLast?_of_locate h.1 hp]
  simpa using h.2

/-- Whether an operation makes and changes files at such paths only. -/
def Operation.Within (on : Path → Prop) : Operation → Prop
  | .create p _ | .write p _ | .remove p => on p
  | .rename source target => on source ∧ on target
  | _ => True

theorem tree_change (w : World) (p : Path) (r : Except OsCause Tree) :
    (w.change p r).2.tree = r.toOption.getD w.tree := by
  cases r <;> rfl

/-- **An operation on other files keeps the files called `n`.** -/
theorem Operation.Within.kept {op : Operation} (h : op.Within (Apart n)) (w : World) :
    Kept n w.tree (op.run w).2.tree := by
  cases op with
  | makeDir p =>
    rw [Operation.run, tree_change]
    cases hr : w.tree.makeDir p with
    | error e => exact .refl n _
    | ok t =>
      obtain ⟨place, -, hnone, rfl⟩ := makeDir_eq_ok.mp hr
      exact kept_set _ (by simp [hnone]) fun _ => hnone
  | create p bytes =>
    rw [Operation.run, tree_change]
    cases hr : w.tree.create p bytes with
    | error e => exact .refl n _
    | ok t =>
      obtain ⟨place, -, hnone, rfl⟩ := create_eq_ok.mp hr
      exact kept_set _ (by simp [hnone]) fun _ => hnone
  | write p bytes =>
    rw [Operation.run, tree_change]
    cases hr : w.tree.write p bytes with
    | error e => exact .refl n _
    | ok t =>
      obtain ⟨place, hplace, hdir, rfl⟩ := write_eq_ok.mp hr
      exact kept_set _ hdir fun hlast => absurd hlast (Apart.getLast? h hplace)
  | remove p =>
    rw [Operation.run, tree_change]
    cases hr : w.tree.remove p with
    | error e => exact .refl n _
    | ok t =>
      obtain ⟨place, bytes, hplace, hentry, rfl⟩ := remove_eq_ok.mp hr
      exact kept_erase (by simp [hentry]) (Apart.getLast? h hplace)
  | rename source target =>
    rw [Operation.run]
    cases hr : w.tree.rename source target with
    | error e => exact .refl n _
    | ok t =>
      obtain ⟨place, bytes, goal, hplace, hentry, hgoal, -, hdir, rfl⟩ := rename_eq_ok.mp hr
      have herased : (w.tree.erase place).entryAt goal ≠ some .directory := by
        rw [Tree.entryAt_erase, not_isFixed hdir, if_neg Bool.false_ne_true]
        split
        · simp
        · exact hdir
      exact (kept_erase (by simp [hentry]) (Apart.getLast? h.1 hplace)).trans
        (kept_set _ herased fun hlast => absurd hlast (Apart.getLast? h.2 hgoal))
  | read p => exact .refl n _
  | kind p => exact .refl n _
  | names p => exact .refl n _
  | freshName directory name => exact .refl n _
  | say line => exact .refl n _
  | record r => exact .refl n _

end

end EntityScaffold.Storage
