import EntityScaffold.Source.Attribute

/-!
# Reading over matched brackets

`bracketRun` follows the brackets of a text with a stack.  A piece is `Level` if its brackets match
within it and none of them is a brace; every function that counts brackets reads over such a piece
and is where it was.

* `extent?_statement`, `extent?_block` — where a member ends.
* `closingBrace?_append` — the brace that closes a class is looked for behind a piece without
  braces.
* `groupPieces_run`, `groupInside_append` — an attribute with its arguments.
-/

set_option autoImplicit false

namespace EntityScaffold.Source

open Text

/-! ## Matched brackets -/

/-- There are three kinds of brackets. -/
theorem closerOf?_eq_some_iff {o c : Char} : closerOf? o = some c ↔
    o = '(' ∧ c = ')' ∨ o = '[' ∧ c = ']' ∨ o = '\x7b' ∧ c = '\x7d' := by
  constructor
  · intro h
    simp only [closerOf?] at h
    split at h
    · exact .inl ⟨‹_›, (Option.some.inj h).symm⟩
    split at h
    · exact .inr (.inl ⟨‹_›, (Option.some.inj h).symm⟩)
    split at h
    · exact .inr (.inr ⟨‹_›, (Option.some.inj h).symm⟩)
    · cases h
  · rintro (⟨rfl, rfl⟩ | ⟨rfl, rfl⟩ | ⟨rfl, rfl⟩) <;> rfl

/-- A bracket is closed by one of its own kind only. -/
theorem closes_iff {o c o' c' : Char} (h : closerOf? o = some c) (h' : closerOf? o' = some c') :
    c = c' ↔ o = o' := by
  rw [closerOf?_eq_some_iff] at h h'
  rcases h with ⟨rfl, rfl⟩ | ⟨rfl, rfl⟩ | ⟨rfl, rfl⟩ <;>
    rcases h' with ⟨rfl, rfl⟩ | ⟨rfl, rfl⟩ | ⟨rfl, rfl⟩ <;> decide

/-- The open brackets after one more character, the innermost first; none if it closes another
bracket than the innermost one. -/
def bracketStep (openers : List Char) (c : Char) : Option (List Char) :=
  if isOpener c then some (c :: openers)
  else if isCloser c then
    match openers with
    | [] => none
    | o :: outer => if closerOf? o = some c then some outer else none
  else some openers

/-- The open brackets behind a text. -/
def bracketRun (openers : List Char) (t : Text) : Option (List Char) :=
  t.foldlM bracketStep openers

theorem bracketRun_cons (openers : List Char) (c : Char) (t : Text) :
    bracketRun openers (c :: t) = (bracketStep openers c).bind (bracketRun · t) := rfl

theorem bracketRun_append (openers : List Char) (s t : Text) :
    bracketRun openers (s ++ t) = (bracketRun openers s).bind (bracketRun · t) := by
  rw [bracketRun, List.foldlM_append]
  rfl

theorem brackets_of_closerOf? {o c : Char} (h : closerOf? o = some c) :
    isOpener o = true ∧ isOpener c = false ∧ isCloser c = true := by
  rcases closerOf?_eq_some_iff.mp h with ⟨rfl, rfl⟩ | ⟨rfl, rfl⟩ | ⟨rfl, rfl⟩ <;> decide

theorem isOpener_of_isCloser {c : Char} (h : isCloser c = true) : isOpener c = false := by
  simp only [isCloser, Bool.or_eq_true, beq_iff_eq] at h
  rcases h with (rfl | rfl) | rfl <;> decide

theorem bracketStep_of_plain {c : Char} (ho : isOpener c = false) (hc : isCloser c = false)
    (openers : List Char) : bracketStep openers c = some openers := by
  simp [bracketStep, ho, hc]

theorem bracketStep_of_opener {o : Char} (ho : isOpener o = true) (openers : List Char) :
    bracketStep openers o = some (o :: openers) := by
  simp [bracketStep, ho]

theorem bracketStep_of_closerOf? {o c : Char} (h : closerOf? o = some c) (openers : List Char) :
    bracketStep (o :: openers) c = some openers := by
  obtain ⟨-, hc, hc'⟩ := brackets_of_closerOf? h
  simp [bracketStep, hc, hc', h]

/-- Only a bracket that closes another one than the innermost does not match. -/
theorem bracketStep_eq_none_iff {openers : List Char} {c : Char} :
    bracketStep openers c = none ↔
      isCloser c = true ∧ ∀ o ∈ openers.head?, closerOf? o ≠ some c := by
  cases hc : isCloser c with
  | false =>
    cases ho : isOpener c with
    | false => simp [bracketStep_of_plain ho hc]
    | true => simp [bracketStep_of_opener ho]
  | true =>
    have ho := isOpener_of_isCloser hc
    cases openers with
    | nil => simp [bracketStep, ho, hc]
    | cons o outer => simp [bracketStep, ho, hc]

/-- What one more character does to the open brackets. -/
theorem bracketStep_cases {xs ys : List Char} {c : Char} (h : bracketStep xs c = some ys) :
    (isOpener c = true ∧ ys = c :: xs) ∨
    (isOpener c = false ∧ isCloser c = true ∧ ∃ o, xs = o :: ys ∧ closerOf? o = some c) ∨
    (isOpener c = false ∧ isCloser c = false ∧ ys = xs) := by
  unfold bracketStep at h
  split at h
  · rename_i ho
    exact .inl ⟨ho, by simpa using h.symm⟩
  · rename_i ho
    split at h
    · rename_i hc
      cases xs with
      | nil => cases h
      | cons o outer =>
        simp only at h
        split at h
        · rename_i hoc
          cases h
          exact .inr (.inl ⟨by simpa using ho, hc, o, rfl, hoc⟩)
        · cases h
    · rename_i hc
      exact .inr (.inr ⟨by simpa using ho, by simpa using hc, by simpa using h.symm⟩)

theorem bracketStep_append {xs ys : List Char} {c : Char} (h : bracketStep xs c = some ys)
    (os : List Char) : bracketStep (xs ++ os) c = some (ys ++ os) := by
  rcases bracketStep_cases h with ⟨ho, rfl⟩ | ⟨ho, hc, o, rfl, hoc⟩ | ⟨ho, hc, rfl⟩
  · exact bracketStep_of_opener ho (xs ++ os)
  · exact bracketStep_of_closerOf? hoc (ys ++ os)
  · exact bracketStep_of_plain ho hc (ys ++ os)

/-- Brackets that match do so among brackets already open. -/
theorem bracketRun_outer {xs ys : List Char} {t : Text} (h : bracketRun xs t = some ys)
    (os : List Char) : bracketRun (xs ++ os) t = some (ys ++ os) := by
  induction t generalizing xs with
  | nil =>
    cases h
    rfl
  | cons c t ih =>
    rw [bracketRun_cons, Option.bind_eq_some_iff] at h
    obtain ⟨zs, hstep, hrun⟩ := h
    rw [bracketRun_cons, bracketStep_append hstep, Option.bind_some, ih hrun]

/-- The brackets of the piece match, and there is no brace. -/
structure Level (t : Text) : Prop where
  matched : bracketRun [] t = some []
  opening : '\x7b' ∉ t
  closing : '\x7d' ∉ t

theorem Level.nil : Level [] := ⟨rfl, by simp, by simp⟩

theorem Level.append {s t : Text} (hs : Level s) (ht : Level t) : Level (s ++ t) where
  matched := by rw [bracketRun_append, hs.matched, Option.bind_some, ht.matched]
  opening := by simp [hs.opening, ht.opening]
  closing := by simp [hs.closing, ht.closing]

/-- A text without brackets is level. -/
theorem Level.of_plain {t : Text} (h : ∀ c ∈ t, isOpener c = false ∧ isCloser c = false) :
    Level t where
  matched := by
    induction t with
    | nil => rfl
    | cons c t ih =>
      have hc := h c (by simp)
      rw [bracketRun_cons, bracketStep_of_plain hc.1 hc.2]
      exact ih fun d hd => h d (List.mem_cons_of_mem c hd)
  opening hm := by simpa [isOpener] using (h _ hm).1
  closing hm := by simpa [isCloser] using (h _ hm).2

/-! ## The extent of a member -/

theorem extentFrom_run {xs ys os : List Char} {block : Option Nat} (pos : Nat) {t u : Text}
    (hrun : bracketRun xs t = some ys) (hopen : '\x7b' ∉ t) (hclose : '\x7d' ∉ t)
    (hend : ';' ∉ t ∨ os ≠ []) :
    extentFrom (xs ++ os) block pos (t ++ u) =
      extentFrom (ys ++ os) block (pos + t.length) u := by
  induction t generalizing xs pos with
  | nil =>
    cases hrun
    rfl
  | cons c t ih =>
    rw [bracketRun_cons, Option.bind_eq_some_iff] at hrun
    obtain ⟨zs, hstep, hrun⟩ := hrun
    simp only [List.mem_cons, not_or] at hopen hclose hend
    have hnext := ih (pos + 1) hrun hopen.2 hclose.2 (hend.imp And.right id)
    have hlen : pos + (c :: t).length = pos + 1 + t.length := by
      simp only [List.length_cons]
      omega
    rw [hlen, ← hnext, List.cons_append]
    rcases bracketStep_cases hstep with ⟨ho, rfl⟩ | ⟨ho, hc, o, rfl, hoc⟩ | ⟨ho, hc, rfl⟩
    · simp [extentFrom, ho, Ne.symm hopen.1]
    · simp [extentFrom, ho, hc, hoc, Ne.symm hclose.1]
    · have hsemi : (c = ';' && (zs ++ os).isEmpty) = false := by
        rcases hend with h | h
        · simp [Ne.symm h.1]
        · simp [h]
      simp only [extentFrom, ho, hc, hsemi, Bool.false_eq_true, if_false]

theorem extentFrom_level {os : List Char} {block : Option Nat} {pos : Nat} {t u : Text}
    (ht : Level t) (hend : ';' ∉ t ∨ os ≠ []) :
    extentFrom os block pos (t ++ u) = extentFrom os block (pos + t.length) u :=
  extentFrom_run pos ht.matched ht.opening ht.closing hend

/-- A member without a block ends with its first semicolon. -/
theorem extent?_statement {s : Text} (hs : Level s) (hsemi : ';' ∉ s) (u : Text) :
    extent? (s ++ ';' :: u) = some ⟨s.length + 1, none⟩ := by
  rw [extent?, extentFrom_level hs (.inl hsemi), extentFrom]
  simp [isOpener, isCloser]

/-- A member with a block ends with the brace that closes it. -/
theorem extent?_block {h b : Text} (hh : Level h) (hsemi : ';' ∉ h) (hb : Level b) (u : Text) :
    extent? (h ++ '\x7b' :: (b ++ '\x7d' :: u)) =
      some ⟨h.length + b.length + 2, some (h.length, h.length + b.length + 1)⟩ := by
  rw [extent?, extentFrom_level hh (.inl hsemi), extentFrom]
  simp only [isOpener, Nat.zero_add]
  simp only [show ('\x7b' == '(' || '\x7b' == '[' || '\x7b' == '\x7b') = true by decide, if_true]
  rw [extentFrom_level hb (.inr (by simp)), extentFrom]
  simp [isOpener, isCloser, closerOf?]
  omega

/-! ## The brace that closes a class -/

theorem closingBrace?_append {t u : Text} (hopen : '\x7b' ∉ t) (hclose : '\x7d' ∉ t)
    (depth : Nat) :
    closingBrace? depth (t ++ u) = (closingBrace? depth u).map (t.length + ·) := by
  induction t with
  | nil => simp
  | cons c t ih =>
    simp only [List.mem_cons, not_or] at hopen hclose
    rw [List.cons_append, closingBrace?, if_neg (Ne.symm hopen.1), if_neg (Ne.symm hclose.1),
      ih hopen.2 hclose.2, Option.map_map]
    congr 1
    funext n
    simp only [Function.comp_apply, List.length_cons]
    omega

/-- A block within a class is read over. -/
theorem closingBrace?_block {h b u : Text} (hh : Level h) (hb : Level b) :
    closingBrace? 1 (h ++ '\x7b' :: (b ++ '\x7d' :: u)) =
      (closingBrace? 1 u).map ((h ++ '\x7b' :: (b ++ ['\x7d'])).length + ·) := by
  rw [closingBrace?_append hh.opening hh.closing, closingBrace?, if_pos rfl,
    closingBrace?_append hb.opening hb.closing, closingBrace?, if_neg (by decide), if_pos rfl,
    if_neg (by decide)]
  simp only [Option.map_map]
  congr 1
  funext n
  simp only [Function.comp_apply, List.length_append, List.length_cons, List.length_nil]
  omega

/-! ## Attribute groups -/

/-- A group without square brackets inside ends with the first one. -/
theorem groupInside_append {a : Text} (hopen : '[' ∉ a) (hclose : ']' ∉ a) (u : Text) :
    groupInside 1 (a ++ ']' :: u) = (a, u) := by
  induction a with
  | nil => rfl
  | cons c a ih =>
    simp only [List.mem_cons, not_or] at hopen hclose
    rw [List.cons_append, groupInside]
    simp [Ne.symm hopen.1, Ne.symm hclose.1, ih hopen.2 hclose.2]

theorem groupPieces_run {xs ys : List Char} {d : Nat} {p t u : Text}
    (hrun : bracketRun xs t = some ys) (hd : 0 < d) :
    groupPieces ((xs.length + d : Nat) : Int) p (t ++ u) =
      groupPieces ((ys.length + d : Nat) : Int) (t.reverse ++ p) u := by
  induction t generalizing xs p with
  | nil =>
    cases hrun
    rfl
  | cons c t ih =>
    rw [bracketRun_cons, Option.bind_eq_some_iff] at hrun
    obtain ⟨zs, hstep, hrun⟩ := hrun
    have hnext := ih (p := c :: p) hrun
    -- the depth is that of the stack, so it is positive at every comma
    have hdepth : (if isOpener c then ((xs.length + d : Nat) : Int) + 1
        else if isCloser c then ((xs.length + d : Nat) : Int) - 1 else ((xs.length + d : Nat) : Int))
        = ((zs.length + d : Nat) : Int) := by
      rcases bracketStep_cases hstep with ⟨ho, rfl⟩ | ⟨ho, hc, o, rfl, hoc⟩ | ⟨ho, hc, rfl⟩
      · rw [if_pos ho, List.length_cons]
        omega
      · rw [if_neg (by simp [ho]), if_pos hc, List.length_cons]
        omega
      · rw [if_neg (by simp [ho]), if_neg (by simp [hc])]
    have hcomma : (c = ',' && decide (((zs.length + d : Nat) : Int) = 0)) = false := by
      have : ¬(((zs.length + d : Nat) : Int) = 0) := by omega
      simp only [this, decide_false, Bool.and_false]
    rw [List.cons_append, groupPieces]
    simp only [hdepth, hcomma, Bool.false_eq_true, if_false, List.reverse_cons, List.append_assoc,
      List.singleton_append]
    exact hnext

theorem groupPieces_append {w : Text}
    (hw : ∀ c ∈ w, isOpener c = false ∧ isCloser c = false ∧ c ≠ ',') (p t : Text) :
    groupPieces 0 p (w ++ t) = groupPieces 0 (w.reverse ++ p) t := by
  induction w generalizing p with
  | nil => rfl
  | cons c w ih =>
    obtain ⟨h₁, h₂, h₃⟩ := hw c (by simp)
    rw [List.cons_append, groupPieces]
    simp [h₁, h₂, h₃, ih fun d hd => hw d (List.mem_cons_of_mem c hd)]

end EntityScaffold.Source
