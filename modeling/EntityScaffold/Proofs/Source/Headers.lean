import EntityScaffold.Source.Declaration

/-!
# Where a class header is found

A class header begins with one of four words and a blank.  `headRun` reads a text and follows how
much of these words has been read, `none` when one of them is complete: a text that it gets through
holds no class header, so the search for headers passes over it.

* `classHeader?_of_headRun` — no class header begins where `headRun` gets through.
* `classHeadersFrom_append` — the search passes over such a text.
* `classHeaders_of_one` — a file whose only class header is the given one.
-/

set_option autoImplicit false

namespace EntityScaffold.Source

open Text

/-- The words with which a class header may begin. -/
def headWords : List Text := classModifiers ++ [("class" : Text)]

/-- What is left to read of each word after `c`, of those that go on with it. -/
def continued (c : Char) (words : List Text) : List Text :=
  words.filterMap fun w => after? [c] w

/-- One more character, where `words` is what is left to read of the words that have begun; none
if one of them has been read and a blank follows. -/
def headStep (words : List Text) (c : Char) : Option (List Text) :=
  if isBlank c then if words.contains [] then none else some headWords
  else if isWord c then some (continued c words)
  else some (if endsBeforeClass c then headWords else [])

def headRun (words : List Text) (t : Text) : Option (List Text) := t.foldlM headStep words

theorem headRun_cons (words : List Text) (c : Char) (t : Text) :
    headRun words (c :: t) = (headStep words c).bind (headRun · t) := rfl

theorem headRun_append (words : List Text) (s t : Text) :
    headRun words (s ++ t) = (headRun words s).bind (headRun · t) := by
  rw [headRun, List.foldlM_append]
  rfl

/-! ## A word of a header stops the reading -/

/-- The characters of the words are word characters and not blank. -/
theorem of_mem_headWords {w : Text} (h : w ∈ headWords) :
    ∀ c ∈ w, isBlank c = false ∧ isWord c = true := by
  revert w
  decide

/-- The reading does not get past a word that has begun and the blank behind it.  Behind `t`,
which holds a blank itself, anything may follow. -/
theorem headRun_word {words : List Text} {w t u v : Text} {b : Char} (hw : w ∈ words)
    (hword : ∀ c ∈ w, isBlank c = false ∧ isWord c = true) (hb : isBlank b = true)
    (ht : ∃ d ∈ t, isBlank d = true) (heq : t ++ u = w ++ b :: v) : headRun words t = none := by
  induction w generalizing words t with
  | nil =>
    cases t with
    | nil =>
      obtain ⟨d, hd, _⟩ := ht
      cases hd
    | cons c t =>
      have hc : c = b := by simpa using congrArg List.head? heq
      have hmem : words.contains [] = true := by simpa using hw
      rw [headRun_cons, headStep, hc, if_pos hb, if_pos hmem]
      rfl
  | cons e w ih =>
    cases t with
    | nil =>
      obtain ⟨d, hd, _⟩ := ht
      cases hd
    | cons c t =>
      simp only [List.cons_append, List.cons.injEq] at heq
      obtain ⟨rfl, heq⟩ := heq
      have hc := hword c (by simp)
      have hnext : w ∈ continued c words := List.mem_filterMap.mpr ⟨c :: w, hw, by simp [after?]⟩
      have ht : ∃ d ∈ t, isBlank d = true := by
        obtain ⟨d, hd, hdb⟩ := ht
        rcases List.mem_cons.mp hd with rfl | hd
        · rw [hc.1] at hdb
          cases hdb
        · exact ⟨d, hd, hdb⟩
      rw [headRun_cons, headStep, if_neg (by simp [hc.1]), if_pos hc.2, Option.bind_some]
      exact ih hnext (fun d hd => hword d (by simp [hd])) ht heq

theorem eq_cons_of_blanks? {t r : Text} (h : blanks? t = some r) :
    ∃ b v, t = b :: v ∧ isBlank b = true := by
  cases t with
  | nil => cases h
  | cons b v =>
    simp only [blanks?] at h
    split at h
    · rename_i hb
      exact ⟨b, v, rfl, hb⟩
    · cases h

/-- No class header begins where the reading gets through. -/
theorem classHeader?_of_headRun {t u : Text} {words : List Text}
    (hrun : headRun headWords t = some words) (ht : ∃ d ∈ t, isBlank d = true) :
    classHeader? (t ++ u) = none := by
  have hno : ∀ w ∈ headWords, (after? w (t ++ u)).bind blanks? = none := by
    intro w hw
    rw [Option.bind_eq_none_iff]
    intro r hr
    cases hb : blanks? r with
    | none => rfl
    | some v =>
      obtain ⟨b, v, rfl, hblank⟩ := eq_cons_of_blanks? hb
      rw [headRun_word hw (of_mem_headWords hw) hblank ht (eq_append_of_after? hr)] at hrun
      cases hrun
  have hkey : keyword? classModifiers (t ++ u) = none := by
    rw [keyword?, List.findSome?_eq_none_iff]
    exact fun w hw => hno w (List.mem_append_left _ hw)
  have hsteps : steps (keyword? classModifiers) (t ++ u) = t ++ u := by
    cases h : (t ++ u).length with
    | zero => rw [steps, h, stepsWith]
    | succ n => rw [steps, h, stepsWith, hkey]
  have hclass := hno "class" (by decide)
  simp only [classHeader?, hsteps, Option.bind_eq_bind]
  rw [← Option.bind_assoc, hclass]
  rfl

/-! ## The search passes over -/

/-- Where a class header may begin, all of the words are left to read. -/
theorem headStep_fresh {words words' : List Text} {c : Char} (h : headStep words c = some words')
    (hc : endsBeforeClass c = true) : words' = headWords := by
  have hword : isWord c = false := by
    simp only [endsBeforeClass, Bool.not_eq_true', Bool.or_eq_false_iff] at hc
    exact hc.1.1.1.1
  unfold headStep at h
  split at h
  · split at h
    · cases h
    · cases h
      rfl
  · simpa [hword, hc] using h.symm

/-- **The search for class headers passes over a text that the reading gets through.** -/
theorem classHeadersFrom_append (prev : Option Char) (pos : Nat) {t u : Text}
    {words words' : List Text} (hrun : headRun words t = some words')
    (hfresh : prev.all endsBeforeClass = true → words = headWords)
    (hlast : ∀ c ∈ t.getLast?, isBlank c = true) (hne : t ≠ []) :
    classHeadersFrom prev pos 0 (t ++ u) =
      classHeadersFrom t.getLast? (pos + t.length) 0 u := by
  induction t generalizing prev pos words with
  | nil => exact absurd rfl hne
  | cons c t ih =>
    have hblank : ∃ d ∈ c :: t, isBlank d = true := by
      obtain ⟨d, hd⟩ : ∃ d, (c :: t).getLast? = some d := by
        cases h : (c :: t).getLast? with
        | none => simp at h
        | some d => exact ⟨d, rfl⟩
      exact ⟨d, List.mem_of_getLast? hd, hlast d hd⟩
    have hnone : (if prev.all endsBeforeClass then classHeader? (c :: t ++ u) else none) = none := by
      split
      · rename_i hprev
        rw [hfresh hprev] at hrun
        exact classHeader?_of_headRun hrun hblank
      · rfl
    rw [headRun_cons, Option.bind_eq_some_iff] at hrun
    obtain ⟨next, hstep, hrun⟩ := hrun
    rw [List.cons_append] at hnone ⊢
    rw [classHeadersFrom, hnone]
    simp only
    cases ht : t with
    | nil => rfl
    | cons d r =>
      rw [← ht, ih (some c) (pos + 1) hrun ?_ ?_ (by simp [ht])]
      · have : (c :: t).getLast? = t.getLast? := by simp [ht]
        rw [this, List.length_cons]
        congr 1
        omega
      · intro hc
        exact headStep_fresh hstep (by simpa using hc)
      · intro e he
        refine hlast e ?_
        rw [ht] at he ⊢
        simpa using he

/-- The characters of a header are passed over once it has been found. -/
theorem classHeadersFrom_skip (prev : Option Char) (pos : Nat) (s u : Text) (hne : s ≠ []) :
    classHeadersFrom prev pos s.length (s ++ u) =
      classHeadersFrom s.getLast? (pos + s.length) 0 u := by
  induction s generalizing prev pos with
  | nil => exact absurd rfl hne
  | cons c s ih =>
    rw [List.cons_append, List.length_cons, classHeadersFrom]
    cases hs : s with
    | nil => rfl
    | cons d r =>
      rw [← hs, ih _ _ (by simp [hs])]
      have : (c :: s).getLast? = s.getLast? := by simp [hs]
      rw [this]
      congr 1
      omega

/-! ## The header of a class -/

/-- A word followed by something else is read as a name. -/
theorem name?_append {c : Char} {w u : Text} (hc : isNameStart c = true)
    (hw : ∀ d ∈ w, isWord d = true) (hu : ∀ d ∈ u.head?, isWord d = false) :
    name? (c :: w ++ u) = some (c :: w, u) := by
  have htake : (w ++ u).takeWhile isWord = w := by
    rw [List.takeWhile_append_of_pos hw]
    cases u with
    | nil => simp
    | cons d u => simp [hu d (by simp)]
  have hdrop : (w ++ u).dropWhile isWord = u := by
    rw [List.dropWhile_append_of_pos hw]
    cases u with
    | nil => simp
    | cons d u => simp [hu d (by simp)]
  rw [List.cons_append, name?, if_pos hc, htake, hdrop]

/-- The header of a class as it is written for a new entity. -/
theorem classHeader?_append {c : Char} {w : Text} (hc : isNameStart c = true)
    (hw : ∀ d ∈ w, isWord d = true) (hplain : ∀ d ∈ c :: w, isBlank d = false) (u : Text) :
    classHeader? ("class " ++ (c :: w) ++ "\n\x7b" ++ u) =
      some (c :: w, ("class " ++ (c :: w) ++ "\n\x7b" : Text).length) := by
  have hsteps : steps (keyword? classModifiers) ("class " ++ (c :: w) ++ "\n\x7b" ++ u) =
      "class " ++ (c :: w) ++ "\n\x7b" ++ u := rfl
  have hclass : after? "class" ("class " ++ (c :: w) ++ "\n\x7b" ++ u) =
      some (' ' :: (c :: w ++ ("\n\x7b" ++ u))) := by
    have := after?_append "class" (' ' :: (c :: w ++ ("\n\x7b" ++ u)))
    simpa using this
  have hblanks : blanks? (' ' :: (c :: w ++ ("\n\x7b" ++ u))) = some (c :: w ++ ("\n\x7b" ++ u)) := by
    have hb : isBlank ' ' = true := by decide
    have hcb : isBlank c = false := hplain c (by simp)
    simp [blanks?, hb, hcb]
  have hname : name? (c :: w ++ ("\n\x7b" ++ u)) = some (c :: w, "\n\x7b" ++ u) :=
    name?_append hc hw fun d hd => by
      have : d = '\n' := by simpa using hd.symm
      rw [this]
      decide
  have hbrace : after? "\x7b" (("\n\x7b" ++ u : Text).dropWhile fun c => c != '\x7b' && c != ';') =
      some u := by
    simp [after?]
  simp only [classHeader?, hsteps, hclass, hblanks, hname, hbrace, Option.bind_eq_bind,
    Option.bind_some, Option.some.injEq, Prod.mk.injEq, true_and]
  simp only [List.length_append, Nat.add_sub_cancel]

/-- **A file with one class header**: nothing before it and nothing behind it is one. -/
theorem classHeaders_of_one {pre rest : Text} {c : Char} {w : Text} {words words' : List Text}
    (hpre : headRun headWords pre = some words) (hlast : pre.getLast? = some '\n')
    (hc : isNameStart c = true) (hw : ∀ d ∈ w, isWord d = true)
    (hplain : ∀ d ∈ c :: w, isBlank d = false)
    (hrest : headRun headWords rest = some words') (hend : rest.getLast? = some '\n') :
    classHeaders (pre ++ ("class " ++ (c :: w) ++ "\n\x7b" ++ rest)) =
      [⟨c :: w, pre.length,
        pre.length + ("class " ++ (c :: w) ++ "\n\x7b" : Text).length - 1⟩] := by
  have hne : ∀ {t : Text}, t.getLast? = some '\n' → t ≠ [] := by
    intro t ht hnil
    rw [hnil] at ht
    cases ht
  have hblank : ∀ {t : Text}, t.getLast? = some '\n' → ∀ d ∈ t.getLast?, isBlank d = true := by
    intro t ht d hd
    rw [ht] at hd
    cases hd
    decide
  rw [classHeaders, classHeadersFrom_append none 0 hpre (fun _ => rfl) (hblank hlast) (hne hlast), hlast,
    Nat.zero_add]
  -- the header is the letter `c` and what is passed over behind it
  obtain ⟨s, hs, hsne, hslast⟩ : ∃ s : Text, ("class " ++ (c :: w) ++ "\n\x7b" : Text) = 'c' :: s ∧
      s ≠ [] ∧ s.getLast? = some '\x7b' :=
    ⟨"lass " ++ (c :: w) ++ "\n\x7b", rfl, by simp, by
      rw [List.getLast?_append]
      rfl⟩
  have hfound := classHeader?_append hc hw hplain rest
  rw [hs] at hfound ⊢
  have hnewline : Option.all endsBeforeClass (some '\n') = true := by decide
  rw [List.cons_append, classHeadersFrom, hnewline, if_pos rfl]
  rw [List.cons_append] at hfound
  rw [hfound]
  simp only [List.length_cons, Nat.add_sub_cancel]
  have hskip := classHeadersFrom_skip (some 'c') (pre.length + 1) s rest hsne
  have hrestNone := classHeadersFrom_append (some '\x7b') (pre.length + 1 + s.length) (u := [])
    hrest (fun _ => rfl) (hblank hend) (hne hend)
  rw [List.append_nil] at hrestNone
  rw [hskip, hslast, hrestNone, classHeadersFrom]

end EntityScaffold.Source
