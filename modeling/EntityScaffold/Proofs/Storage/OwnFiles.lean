import EntityScaffold.Proofs.Storage.Directories

/-!
# The files of one entity

Work on an entity makes and changes its file, the lock beside it and the files written to be moved
there.  It sees no other file: from two trees in which these are the same it does the same, and all
other files stay as they were.

* `Own` — the names of an entity's files; `Own.unique` — no two entities have one in common.
* `Working` — how two trees are related in which work on an entity is under way.
* `agrees_working` — every operation of the work agrees.
-/

set_option autoImplicit false

namespace EntityScaffold.Storage

open Text Storage.Task

/-! ## Names -/

/-- The names of the files that work on the file called `n` makes and changes. -/
inductive Own (n : Text) : Text → Prop
  | file : Own n n
  | lock : Own n (n ++ ".lock")
  | temporary (k : Nat) : Own n (temporaryName n k)

theorem length_hexDigits (width n : Nat) : (hexDigits width n).length = width := by
  induction width generalizing n with
  | zero => rfl
  | succ width ih => simp [hexDigits, ih]

theorem notMem_hexDigits {c : Char} (hc : ∀ k < 16, hexDigit k ≠ c) (width n : Nat) :
    c ∉ hexDigits width n := by
  induction width generalizing n with
  | zero => simp [hexDigits]
  | succ width ih =>
    simp only [hexDigits, List.mem_append, List.mem_singleton, not_or]
    exact ⟨ih _, fun h => hc _ (Nat.mod_lt _ (by decide)) h.symm⟩

/-- A source file is no lock. -/
theorem source_ne_lock {s n : Text} : s ++ ".php" ≠ n ++ ".lock" := by
  have heq : n ++ ".lock" = (n ++ ".") ++ "lock" := by simp
  rw [heq]
  exact append_ne_append (by decide) (by decide)

/-- A source file is none that is written to be moved. -/
theorem source_ne_temporary {s n : Text} {k : Nat} : s ++ ".php" ≠ temporaryName n k :=
  append_ne_append (by decide) (by decide)

/-- A lock is no file that is written to be moved. -/
theorem lock_ne_temporary {s n : Text} {k : Nat} : s ++ ".lock" ≠ temporaryName n k := by
  have heq : s ++ ".lock" = (s ++ ".") ++ "lock" := by simp
  rw [heq]
  exact append_ne_append (by decide) (by decide)

/-- **No two entities have a file in common.** -/
theorem Own.unique {m m' x : Text} (h : Own (m ++ ".php") x) (h' : Own (m' ++ ".php") x) :
    m = m' := by
  cases h with
  | file =>
    generalize hx : m ++ ".php" = x at h'
    cases h' with
    | file => exact List.append_cancel_right hx
    | lock => exact absurd hx source_ne_lock
    | temporary k => exact absurd hx source_ne_temporary
  | lock =>
    generalize hx : m ++ ".php" ++ ".lock" = x at h'
    cases h' with
    | file => exact absurd hx.symm source_ne_lock
    | lock => exact List.append_cancel_right (List.append_cancel_right hx)
    | temporary k => exact absurd hx lock_ne_temporary
  | temporary k =>
    generalize hx : temporaryName (m ++ ".php") k = x at h'
    cases h' with
    | file => exact absurd hx.symm source_ne_temporary
    | lock => exact absurd hx.symm lock_ne_temporary
    | temporary k' =>
      have hlength :
          ("." ++ hexDigits 8 k ++ ".tmp").length = ("." ++ hexDigits 8 k' ++ ".tmp").length := by
        simp [length_hexDigits]
      have hx : ("." ++ (m ++ ".php")) ++ ("." ++ hexDigits 8 k ++ ".tmp") =
          ("." ++ (m' ++ ".php")) ++ ("." ++ hexDigits 8 k' ++ ".tmp") := by
        simpa [temporaryName] using hx
      exact List.append_cancel_right
        (List.append_cancel_left (List.append_inj_left' hx hlength))

theorem Own.two_lt_length {n x : Text} (h : Own n x) (hn : 2 < n.length) : 2 < x.length := by
  cases h with
  | file => exact hn
  | lock =>
    rw [List.length_append]
    omega
  | temporary k =>
    simp only [temporaryName, List.length_append]
    omega

theorem Own.notMem {n x : Text} (h : Own n x) (hn : '\x00' ∉ n) : '\x00' ∉ x := by
  cases h with
  | file => exact hn
  | lock => simpa using hn
  | temporary k =>
    have hdigits : '\x00' ∉ hexDigits 8 k := notMem_hexDigits (by decide) 8 k
    simpa [temporaryName] using ⟨hn, hdigits⟩

/-! ## Paths -/

section

variable {p : Path} {n : Text}

theorem parent_entry (p : Path) (n : Text) : (p.entry n).parent = p := by
  simp [Path.entry, Path.parent]

theorem name_entry (p : Path) (n : Text) : (p.entry n).name = n := by
  simp [Path.entry, Path.name]

theorem withName_entry (p : Path) (n m : Text) : (p.entry n).withName m = p.entry m := by
  simp [Path.entry, Path.withName]

theorem besides_entry (p : Path) (n : Text) (k : Nat) :
    besides (p.entry n) k = p.entry (temporaryName n k) := by
  rw [besides, parent_entry, name_entry]
  rfl

theorem hasNul_own (hp : (p.entry n).hasNul = false) {x : Text} (hx : Own n x) :
    (p.entry x).hasNul = false := by
  rw [Path.hasNul_entry, Bool.or_eq_false_iff] at hp ⊢
  refine ⟨hp.1, ?_⟩
  have hn : '\x00' ∉ n := by simpa using hp.2
  simpa using hx.notMem hn

theorem nulFree_entry (hp : (p.entry n).hasNul = false) : NulFree (p.entry n) where
  path := hp
  lock := by
    rw [name_entry, withName_entry]
    exact hasNul_own hp .lock
  besides k := by
    rw [besides_entry]
    exact hasNul_own hp (.temporary k)

end

/-! ## Trees -/

/-- The path leads to one directory in both trees, and there the files that work on the file called
`n` makes and changes are the same. -/
structure SameFiles (p : Path) (d : Place) (n : Text) (t t' : Tree) : Prop where
  rooted : Rooted p d t
  rooted' : Rooted p d t'
  own : ∀ x, Own n x → t.entryAt (d ++ [x]) = t'.entryAt (d ++ [x])

/-- How two trees are related in which work on the file called `n` is under way: its own files are
the same in both, and all else is in each as it was at the beginning. -/
structure Working (p : Path) (d : Place) (n : Text) (start start' t t' : Tree) : Prop
    extends SameFiles p d n t t' where
  others : ∀ q, (∀ x, Own n x → q ≠ d ++ [x]) → t.entryAt q = start.entryAt q
  others' : ∀ q, (∀ x, Own n x → q ≠ d ++ [x]) → t'.entryAt q = start'.entryAt q

section

variable {p : Path} {d : Place} {n x : Text} {start start' t t' : Tree}

theorem entryAt_erase_self {place : Place} (hdir : t.entryAt place ≠ some .directory) :
    (t.erase place).entryAt place = none := by
  rw [Tree.entryAt_erase, not_isFixed hdir, if_neg Bool.false_ne_true, if_pos rfl]

theorem Working.dir_iff (h : Working p d n start start' t t') (hx : Own n x)
    (hdir : t.entryAt (d ++ [x]) ≠ some .directory) : t'.entryAt (d ++ [x]) ≠ some .directory :=
  h.own x hx ▸ hdir

theorem Working.set (h : Working p d n start start' t t') (hx : Own n x)
    (hdir : t.entryAt (d ++ [x]) ≠ some .directory) (e : Entry) :
    Working p d n start start' (t.set (d ++ [x]) e) (t'.set (d ++ [x]) e) where
  rooted := h.rooted.firm (firm_set e hdir)
  rooted' := h.rooted'.firm (firm_set e (h.dir_iff hx hdir))
  own y hy := by
    by_cases hne : d ++ [y] = d ++ [x]
    · rw [hne, entryAt_set_self e hdir, entryAt_set_self e (h.dir_iff hx hdir)]
    · rw [entryAt_set_of_ne e hne, entryAt_set_of_ne e hne, h.own y hy]
  others q hq := by rw [entryAt_set_of_ne e (hq x hx), h.others q hq]
  others' q hq := by rw [entryAt_set_of_ne e (hq x hx), h.others' q hq]

theorem Working.erase (h : Working p d n start start' t t') (hx : Own n x)
    (hdir : t.entryAt (d ++ [x]) ≠ some .directory) :
    Working p d n start start' (t.erase (d ++ [x])) (t'.erase (d ++ [x])) where
  rooted := h.rooted.firm (firm_erase hdir)
  rooted' := h.rooted'.firm (firm_erase (h.dir_iff hx hdir))
  own y hy := by
    by_cases hne : d ++ [y] = d ++ [x]
    · rw [hne, entryAt_erase_self hdir, entryAt_erase_self (h.dir_iff hx hdir)]
    · rw [entryAt_erase_of_ne hne, entryAt_erase_of_ne hne, h.own y hy]
  others q hq := by rw [entryAt_erase_of_ne (hq x hx), h.others q hq]
  others' q hq := by rw [entryAt_erase_of_ne (hq x hx), h.others' q hq]

/-- Where an entry of a directory is found depends on the directory alone. -/
theorem locate_of_rooted (h : Rooted p d t) (h' : Rooted p d t') (hx : x ≠ "..")
    (hnul : (p.entry x).hasNul = false) :
    t.locate (p.entry x) = t'.locate (p.entry x) ∧
      ∀ place, t.locate (p.entry x) = .ok place → place = d ++ [x] := by
  by_cases hlong : Tree.longestPath < (encode (p.entry x).text).length
  · rw [locate_eq_nameTooLong hnul hlong, locate_eq_nameTooLong hnul hlong]
    exact ⟨rfl, fun place h => nomatch h⟩
  · rw [locate_entry hnul hlong, locate_entry hnul hlong, h.locate, h'.locate]
    simp only [bind, Except.bind, Tree.follow, h.directory, h'.directory, if_neg hx, true_and]
    intro place hplace
    split at hplace
    · cases hplace
    · cases hplace
      rfl

/-- A name that is longer than two points is not two points. -/
theorem ne_dots (hx : 2 < x.length) : x ≠ ".." := by
  rintro rfl
  exact absurd hx (by decide)

/-- The entity's own files are found alike. -/
theorem SameFiles.look_eq (h : SameFiles p d n t t') (hn : 2 < n.length)
    (hnul : (p.entry n).hasNul = false) (hx : Own n x) :
    t.look (p.entry x) = t'.look (p.entry x) ∧
      ∀ place held, t.look (p.entry x) = .ok (place, held) →
        place = d ++ [x] ∧ t.entryAt (d ++ [x]) = held := by
  obtain ⟨heq, hplace⟩ := locate_of_rooted h.rooted h.rooted' (ne_dots (hx.two_lt_length hn))
    (hasNul_own hnul hx)
  cases hl : t.locate (p.entry x) with
  | error cause =>
    rw [Tree.look, Tree.look, ← heq, hl]
    refine ⟨rfl, fun place held he => ?_⟩
    cases he
  | ok place =>
    obtain rfl := hplace place hl
    rw [Tree.look, Tree.look, ← heq, hl]
    simp only [bind, Except.bind, pure, Except.pure, h.own x hx, true_and]
    intro place held he
    cases he
    exact ⟨rfl, rfl⟩

theorem SameFiles.read_eq (h : SameFiles p d n t t') (hn : 2 < n.length)
    (hnul : (p.entry n).hasNul = false) : t.read (p.entry n) = t'.read (p.entry n) := by
  obtain ⟨heq, -⟩ := h.look_eq hn hnul .file
  rw [Tree.read, Tree.read, heq]

/-- Two changes that are refused alike, or both made and lead to trees that are related. -/
inductive Together (after : Between) : Except OsCause Tree → Except OsCause Tree → Prop
  | refused (cause : OsCause) : Together after (.error cause) (.error cause)
  | made {t t' : Tree} (h : after t t') : Together after (.ok t) (.ok t')

theorem Together.change {after : Between} {r r' : Except OsCause Tree} (h : Together after r r')
    {w w' : World} (hw : after w.tree w'.tree) (p : Path) :
    (w.change p r).1 = (w'.change p r').1 ∧ after (w.change p r).2.tree (w'.change p r').2.tree := by
  cases h with
  | refused cause => exact ⟨rfl, hw⟩
  | made h => exact ⟨rfl, h⟩

/-! ## Operations -/

section

variable (h : Working p d n start start' t t') (hn : 2 < n.length)
  (hnul : (p.entry n).hasNul = false) (hx : Own n x)

include h hn hnul hx

theorem together_create (bytes : Bytes) : Together (Working p d n start start')
    (t.create (p.entry x) bytes) (t'.create (p.entry x) bytes) := by
  obtain ⟨heq, hlook⟩ := h.look_eq hn hnul hx
  unfold Tree.create
  rw [← heq]
  rcases hl : t.look (p.entry x) with cause | ⟨place, _ | held⟩
  · exact .refused cause
  · obtain ⟨rfl, hnone⟩ := hlook _ _ hl
    exact .made (h.set hx (by simp [hnone]) _)
  · exact .refused _

theorem together_write (bytes : Bytes) : Together (Working p d n start start')
    (t.write (p.entry x) bytes) (t'.write (p.entry x) bytes) := by
  obtain ⟨heq, hlook⟩ := h.look_eq hn hnul hx
  unfold Tree.write
  rw [← heq]
  rcases hl : t.look (p.entry x) with cause | ⟨place, _ | _ | held⟩
  · exact .refused cause
  · obtain ⟨rfl, hnone⟩ := hlook _ _ hl
    exact .made (h.set hx (by simp [hnone]) _)
  · exact .refused _
  · obtain ⟨rfl, hfile⟩ := hlook _ _ hl
    exact .made (h.set hx (by simp [hfile]) _)

theorem together_remove : Together (Working p d n start start')
    (t.remove (p.entry x)) (t'.remove (p.entry x)) := by
  obtain ⟨heq, hlook⟩ := h.look_eq hn hnul hx
  unfold Tree.remove
  rw [← heq]
  rcases hl : t.look (p.entry x) with cause | ⟨place, _ | _ | held⟩
  · exact .refused cause
  · exact .refused _
  · exact .refused _
  · obtain ⟨rfl, hfile⟩ := hlook _ _ hl
    exact .made (h.erase hx (by simp [hfile]))

theorem together_rename {y : Text} (hy : Own n y) : Together (Working p d n start start')
    (t.rename (p.entry x) (p.entry y)) (t'.rename (p.entry x) (p.entry y)) := by
  obtain ⟨heq, hlook⟩ := h.look_eq hn hnul hx
  obtain ⟨heq', hlook'⟩ := h.look_eq hn hnul hy
  unfold Tree.rename
  rw [← heq, ← heq']
  rcases hl : t.look (p.entry x) with cause | ⟨place, _ | _ | bytes⟩
  · exact .refused cause
  · exact .refused _
  · exact .refused _
  · obtain ⟨rfl, hfile⟩ := hlook _ _ hl
    have hsource : t.entryAt (d ++ [x]) ≠ some .directory := by simp [hfile]
    have herased : Working p d n start start' (t.erase (d ++ [x])) (t'.erase (d ++ [x])) :=
      h.erase hx hsource
    have hgoal : t.entryAt (d ++ [y]) ≠ some .directory →
        (t.erase (d ++ [x])).entryAt (d ++ [y]) ≠ some .directory := by
      intro hdir
      by_cases hne : d ++ [y] = d ++ [x]
      · simp [hne, entryAt_erase_self hsource]
      · rwa [entryAt_erase_of_ne hne]
    rcases hg : t.look (p.entry y) with cause | ⟨goal, found⟩
    · exact .refused cause
    · obtain ⟨rfl, hfound⟩ := hlook' _ _ hg
      cases (p.entry y).endsInName with
      | false => exact .refused .busy
      | true =>
        rcases found with _ | _ | held
        · exact .made (herased.set hy (hgoal (by simp [hfound])) _)
        · exact .refused _
        · exact .made (herased.set hy (hgoal (by simp [hfound])) _)

end

/-- A name is in a directory if something is there. -/
theorem mem_names {x : Text} (hx : Tree.isFixed (d ++ [x]) = false) :
    x ∈ t.names d ↔ t.entryAt (d ++ [x]) ≠ none := by
  have hlookup : ∀ es : List (Place × Entry),
      (es.lookup (d ++ [x]) ≠ none ↔ ∃ e, (d ++ [x], e) ∈ es) := by
    intro es
    induction es with
    | nil => simp
    | cons held es ih =>
      obtain ⟨q, e⟩ := held
      by_cases hq : d ++ [x] = q
      · subst hq
        simp
      · rw [List.lookup_cons, beq_eq_false_iff_ne.mpr hq]
        simp [ih, hq]
  rw [Tree.entryAt, hx, if_neg Bool.false_ne_true, hlookup, Tree.names, Text.sort, mem_sortBy,
    List.mem_filterMap]
  constructor
  · rintro ⟨⟨q, e⟩, hmem, hq⟩
    simp only [Bool.and_eq_true, bne_iff_ne, ne_eq, decide_eq_true_eq,
      Option.ite_none_right_eq_some] at hq
    obtain ⟨⟨-, hlast⟩, hq⟩ := hq
    refine ⟨e, ?_⟩
    rwa [← hlast, List.dropLast_append_getLast? x hq]
  · rintro ⟨e, hmem⟩
    exact ⟨(d ++ [x], e), hmem, by simp⟩

/-- The first free name depends only on which of the names there are taken. -/
theorem freshFrom_congr {taken taken' : List Text} {n : Text}
    (h : ∀ k, temporaryName n k ∈ taken ↔ temporaryName n k ∈ taken') (fuel k : Nat) :
    freshFrom taken n fuel k = freshFrom taken' n fuel k := by
  induction fuel generalizing k with
  | zero => rfl
  | succ fuel ih =>
    have hcontains : taken.contains (temporaryName n k) = taken'.contains (temporaryName n k) := by
      rw [Bool.eq_iff_iff, List.contains_iff_mem, List.contains_iff_mem, h k]
    rw [freshFrom, freshFrom, hcontains, ih]

/-- A name for a file to be moved is found alike. -/
theorem SameFiles.freshName_eq (h : SameFiles p d n t t') :
    freshFrom (t.names d) n temporaryNames 0 = freshFrom (t'.names d) n temporaryNames 0 := by
  refine freshFrom_congr (fun k => ?_) _ _
  have hfixed : Tree.isFixed (d ++ [temporaryName n k]) = false := by
    simp only [Tree.isFixed, Bool.or_eq_false_iff, decide_eq_false_iff_not]
    refine ⟨by simp, fun heq => ?_⟩
    have hlast := congrArg List.getLast? heq
    rw [List.getLast?_concat] at hlast
    -- a name for a file to be moved begins with a point
    cases hlast
  rw [mem_names hfixed, mem_names hfixed, h.own _ (.temporary k)]

/-- **Every operation of the work agrees.** -/
theorem agrees_working (hn : 2 < n.length) (hnul : (p.entry n).hasNul = false) {op : Operation}
    (hop : op.OnFile (p.entry n)) :
    op.Agrees (Working p d n start start') (Working p d n start start') := by
  intro w w' h
  have hlock : (p.entry n).withName ((p.entry n).name ++ ".lock") = p.entry (n ++ ".lock") := by
    rw [name_entry, withName_entry]
  cases hop with
  | read => exact agrees_read (fun _ _ h => h.read_eq hn hnul) w w' h
  | write bytes => exact (together_write h hn hnul .file bytes).change h _
  | lock bytes =>
    rw [hlock]
    exact (together_create h hn hnul .lock bytes).change h _
  | unlock =>
    rw [hlock]
    exact (together_remove h hn hnul .lock).change h _
  | fresh =>
    refine ⟨?_, h⟩
    rw [parent_entry, name_entry, Operation.run, Operation.run, h.rooted.locate, h.rooted'.locate]
    exact h.freshName_eq
  | begin k =>
    rw [besides_entry]
    exact (together_create h hn hnul (.temporary k) []).change h _
  | fill k bytes =>
    rw [besides_entry]
    exact (together_write h hn hnul (.temporary k) bytes).change h _
  | move k =>
    have htogether := together_rename h hn hnul (.temporary k) .file
    rw [besides_entry, Operation.run, Operation.run]
    generalize w.tree.rename (p.entry (temporaryName n k)) (p.entry n) = r,
      w'.tree.rename (p.entry (temporaryName n k)) (p.entry n) = r' at htogether
    cases htogether with
    | refused cause => exact ⟨rfl, h⟩
    | made hmade => exact ⟨rfl, hmade⟩
  | kind k =>
    rw [besides_entry]
    obtain ⟨heq, -⟩ := h.look_eq hn hnul (.temporary k)
    refine ⟨?_, h⟩
    rw [Operation.run, Operation.run, heq]
  | clear k =>
    rw [besides_entry]
    exact (together_remove h hn hnul (.temporary k)).change h _

/-- Creating the lock leaves the file itself as it is. -/
theorem entryAt_of_create_lock (h : Rooted p d t) (hn : 2 < n.length)
    (hnul : (p.entry n).hasNul = false) {bytes : Bytes}
    (hcreate : t.create (p.entry (n ++ ".lock")) bytes = .ok t') :
    t'.entryAt (d ++ [n]) = t.entryAt (d ++ [n]) := by
  obtain ⟨place, hplace, -, rfl⟩ := create_eq_ok.mp hcreate
  obtain rfl := (locate_of_rooted h h (ne_dots (Own.lock.two_lt_length hn))
    (hasNul_own hnul .lock)).2 place hplace
  exact entryAt_set_of_ne _ (by simp)

/-- Trees in which a directory holds the same file read it alike. -/
theorem read_eq_of_entryAt (h : Rooted p d t) (h' : Rooted p d t') (hn : 2 < n.length)
    (hnul : (p.entry n).hasNul = false) (hentry : t.entryAt (d ++ [n]) = t'.entryAt (d ++ [n])) :
    t.read (p.entry n) = t'.read (p.entry n) := by
  obtain ⟨heq, hplace⟩ := locate_of_rooted h h' (ne_dots hn) hnul
  cases hl : t.locate (p.entry n) with
  | error cause =>
    rw [Tree.read, Tree.read, Tree.look, Tree.look, ← heq, hl]
    rfl
  | ok place =>
    obtain rfl := hplace place hl
    rw [Tree.read, Tree.read, Tree.look, Tree.look, ← heq, hl]
    simp only [bind, Except.bind, pure, Except.pure, hentry]

end

end EntityScaffold.Storage
