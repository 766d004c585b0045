import EntityScaffold.Proofs.Source.Recognised

/-!
# What the text of a property tells about it

* `firstTargetEntity?_append` — the target is read where an attribute names it first.
* `declaresArray_append` — a property declared as an array is found to be one.
* `declaresArray_eq_false` — one declared as something else is not, if it is named only once.
-/

set_option autoImplicit false

namespace EntityScaffold.Source

open Text

/-! ## The first of a character -/

theorem takeWhile_of_notMem {c : Char} {a : Text} (ha : c ∉ a) (b : Text) :
    (a ++ c :: b).takeWhile (· != c) = a := by
  rw [List.takeWhile_append_of_pos fun d hd => bne_iff_ne.mpr fun heq : d = c => ha (heq ▸ hd)]
  simp

/-- A text is cut at the first occurrence of a character in one way. -/
theorem append_first_inj {c : Char} {a b u v : Text} (ha : c ∉ a) (hu : c ∉ u)
    (h : a ++ c :: b = u ++ c :: v) : a = u ∧ b = v := by
  have hsame : a = u := by rw [← takeWhile_of_notMem ha b, h, takeWhile_of_notMem hu v]
  subst hsame
  exact ⟨rfl, by simpa using h⟩

/-- Where a character occurs only once, the text is cut at it in one way. -/
theorem append_cons_inj {c : Char} {a b u v : Text} (h : a ++ c :: b = u ++ c :: v) (hu : c ∉ u)
    (hv : c ∉ v) : a = u ∧ b = v := by
  have hcount := congrArg (List.count c) h
  simp only [List.count_append, List.count_cons_self, List.count_eq_zero.mpr hu,
    List.count_eq_zero.mpr hv] at hcount
  exact append_first_inj (List.count_eq_zero.mp (by omega)) hu h

/-! ## Targets -/

/-- A word that ends in the character `c` does not begin in front of where it stands. -/
theorem after?_eq_none {w s t : Text} {c : Char} (hw : c ∉ w) (hs : c ∉ s) (hne : s ≠ []) :
    after? (w ++ [c]) (s ++ (w ++ c :: t)) = none := by
  cases h : after? (w ++ [c]) (s ++ (w ++ c :: t)) with
  | none => rfl
  | some r =>
    have heq := eq_append_of_after? h
    have hsw : c ∉ s ++ w := by simp [hs, hw]
    rw [← List.append_assoc, List.append_assoc w] at heq
    have hsame := congrArg (List.takeWhile (· != c)) heq
    rw [takeWhile_of_notMem hsw, List.singleton_append, takeWhile_of_notMem hw] at hsame
    exact absurd (List.append_left_eq_self.mp hsame) hne

theorem qualifiedName?_append {target rest : Text} (h : Capital target) :
    qualifiedName? (target ++ (':' :: rest)) = some (target, ':' :: rest) := by
  obtain ⟨hplain, hupper⟩ := h
  cases target with
  | nil => cases hupper
  | cons c t =>
    have hstart : isNameStart c = true := by
      have hc : isAsciiUpper c = true := by simpa using hupper
      simp [isNameStart, isAsciiLetter, hc]
    have hword : ∀ d ∈ t, (isWord d || d == '\\') = true := fun d hd => by
      rw [isWord_of_isAsciiWord (hplain d (List.mem_cons_of_mem c hd)), Bool.true_or]
    have hcolon : ¬ (isWord ':' || ':' == '\\') = true := by decide
    have htake : (':' :: rest).takeWhile (fun d => isWord d || d == '\\') = [] :=
      List.takeWhile_cons_of_neg hcolon
    have hdrop : (':' :: rest).dropWhile (fun d => isWord d || d == '\\') = ':' :: rest :=
      List.dropWhile_cons_of_neg hcolon
    rw [List.cons_append, qualifiedName?, if_pos hstart]
    simp only [List.takeWhile_append_of_pos hword, List.dropWhile_append_of_pos hword, htake, hdrop,
      List.append_nil]

/-- The argument that names the target, and what stands behind it. -/
def targetArgument (target rest : Text) : Text :=
  "targetEntity" ++ ':' :: (' ' :: (target ++ ("::class" ++ rest)))

theorem targetEntity?_eq {target rest : Text} (h : Capital target) :
    targetEntity? (targetArgument target rest) = some target := by
  have hafter : after? "targetEntity:" (targetArgument target rest) =
      some (' ' :: (target ++ ("::class" ++ rest))) :=
    after?_append "targetEntity:" _
  have hhead : ∀ c ∈ (target ++ ("::class" ++ rest)).head?, isBlank c = false ∧ c ≠ '\\' := by
    obtain ⟨hplain, hupper⟩ := h
    cases target with
    | nil => cases hupper
    | cons d t =>
      rintro c ⟨⟩
      have hd := hplain d List.mem_cons_self
      exact ⟨isBlank_of_isAsciiWord hd, ne_of_isAsciiWord hd rfl⟩
  have hskip : skipBlanks (' ' :: (target ++ ("::class" ++ rest))) =
      target ++ ("::class" ++ rest) :=
    skipBlanks_append (b := [' ']) (by decide) (hhead · · |>.1)
  have hslash : after? "\\" (target ++ ("::class" ++ rest)) = none := by
    cases ht : target ++ ("::class" ++ rest) with
    | nil => rfl
    | cons c t => exact if_neg fun heq => (hhead c (by rw [ht]; rfl)).2 heq.symm
  have hclass : after? "::class" ("::class" ++ rest) = some rest := after?_append _ _
  have hname : qualifiedName? (target ++ ("::class" ++ rest)) = some (target, "::class" ++ rest) :=
    qualifiedName?_append h
  rw [targetEntity?, hafter]
  simp only [Option.bind_eq_bind, Option.bind_some, hskip, hslash, Option.getD_none, hname, hclass]

/-- **The target is read where an attribute names it first.** -/
theorem firstTargetEntity?_append {s target : Text} (hs : ':' ∉ s) (h : Capital target)
    (rest : Text) : firstTargetEntity? (s ++ targetArgument target rest) = some target := by
  induction s with
  | nil =>
    obtain ⟨c, t, ht⟩ : ∃ c t, targetArgument target rest = c :: t := ⟨_, _, rfl⟩
    have hread : targetEntity? (targetArgument target rest) = some target := targetEntity?_eq h
    rw [ht] at hread
    rw [List.nil_append, ht, firstTargetEntity?, hread, Option.some_or]
  | cons c s ih =>
    have hnone : targetEntity? ((c :: s) ++ targetArgument target rest) = none := by
      have hafter : after? "targetEntity:" ((c :: s) ++ targetArgument target rest) = none :=
        after?_eq_none (w := "targetEntity") (by decide) hs (List.cons_ne_nil c s)
      rw [targetEntity?, hafter]
      rfl
    rw [List.cons_append] at hnone
    rw [List.cons_append, firstTargetEntity?, hnone, Option.none_or]
    exact ih fun hm => hs (List.mem_cons_of_mem c hm)

/-! ## Arrays -/

theorem arrayOf_append {rest : Text} (name : Text) (h : ∀ c ∈ rest.head?, isWord c = false) :
    arrayOf name ("array " ++ ('$' :: (name ++ rest))) = true := by
  have harray : after? "array" ("array " ++ ('$' :: (name ++ rest))) =
      some (' ' :: '$' :: (name ++ rest)) := after?_append "array" _
  have hblanks : blanks? (' ' :: '$' :: (name ++ rest)) = some ('$' :: (name ++ rest)) := rfl
  have hname : after? ('$' :: name) ('$' :: (name ++ rest)) = some rest := after?_append _ _
  rw [arrayOf]
  simp only [harray, hblanks, hname, Option.bind_eq_bind, Option.bind_some, Option.any_some]
  cases rest with
  | nil => rfl
  | cons c rest => simp [h c rfl]

/-- **A property declared as an array is found to be one.** -/
theorem declaresArray_append {name s t : Text} {prev : Option Char} (h : arrayOf name t = true)
    (hs : ∀ c ∈ s.getLast?.or prev, isWord c = false) :
    declaresArray name prev (s ++ t) = true := by
  induction s generalizing prev with
  | nil =>
    cases t with
    | nil => cases h
    | cons c t =>
      have hprev : prev.any isWord = false := by
        cases prev with
        | none => rfl
        | some d => exact hs d rfl
      rw [List.nil_append, declaresArray, h, hprev]
      rfl
  | cons c s ih =>
    have hlast : ((c :: s).getLast?.or prev) = s.getLast?.or (some c) := by
      cases s with
      | nil => rfl
      | cons d s => simp [List.getLast?_cons]
    rw [hlast] at hs
    rw [List.cons_append, declaresArray, ih hs, Bool.or_true]

theorem exists_of_declaresArray {name t : Text} {prev : Option Char}
    (h : declaresArray name prev t = true) :
    ∃ s u, t = s ++ u ∧ (∀ c ∈ s.getLast?.or prev, isWord c = false) ∧ arrayOf name u = true := by
  induction t generalizing prev with
  | nil => cases h
  | cons c t ih =>
    rw [declaresArray, Bool.or_eq_true, Bool.and_eq_true] at h
    rcases h with ⟨hprev, harray⟩ | h
    · refine ⟨[], c :: t, rfl, fun d hd => ?_, harray⟩
      have hd : prev = some d := hd
      rw [hd] at hprev
      simpa using hprev
    · obtain ⟨s, u, rfl, hlast, harray⟩ := ih h
      refine ⟨c :: s, u, rfl, ?_, harray⟩
      cases s with
      | nil => exact hlast
      | cons d s => simpa [List.getLast?_cons] using hlast

theorem eq_dropWhile_of_blanks? {t u : Text} (h : blanks? t = some u) :
    u = t.dropWhile isBlank := by
  cases t with
  | nil => cases h
  | cons c t =>
    rw [blanks?] at h
    split at h
    · rename_i hc
      rw [List.dropWhile_cons_of_pos hc]
      exact (Option.some.inj h).symm
    · cases h

theorem eq_of_arrayOf {name t : Text} (h : arrayOf name t = true) :
    ∃ b rest, t = "array" ++ (b ++ '$' :: rest) ∧ ∀ c ∈ b, isBlank c = true := by
  rw [arrayOf, Option.any_eq_true] at h
  obtain ⟨rest, hrest, -⟩ := h
  simp only [Option.bind_eq_bind, Option.bind_eq_some_iff] at hrest
  obtain ⟨u, hu, v, hv, hrest⟩ := hrest
  refine ⟨u.takeWhile isBlank, name ++ rest, ?_, fun c hc => ?_⟩
  · rw [eq_append_of_after? hu]
    have hrest := eq_append_of_after? hrest
    rw [eq_dropWhile_of_blanks? hv, List.cons_append] at hrest
    rw [← hrest, List.takeWhile_append_dropWhile]
  · exact List.all_eq_true.mp List.all_takeWhile c hc

/-- The word in front of the blanks at the end of a text. -/
def lastWord (t : Text) : Text := ((t.reverse.dropWhile isBlank).takeWhile isWord).reverse

theorem lastWord_append {s word blanks : Text} (hword : Plain word) (hne : word ≠ [])
    (hs : ∀ c ∈ s.getLast?, isWord c = false) (hblanks : ∀ c ∈ blanks, isBlank c = true) :
    lastWord (s ++ (word ++ blanks)) = word := by
  have hskip : (s ++ (word ++ blanks)).reverse.dropWhile isBlank = word.reverse ++ s.reverse := by
    rw [List.reverse_append, List.reverse_append, List.append_assoc,
      List.dropWhile_append_of_pos fun c hc => hblanks c (List.mem_reverse.mp hc)]
    obtain ⟨c, cs, hc⟩ := List.exists_cons_of_ne_nil (List.reverse_ne_nil_iff.mpr hne)
    have hplain : isAsciiWord c = true := hword c (List.mem_reverse.mp (by simp [hc]))
    rw [hc, List.cons_append, List.dropWhile_cons_of_neg (by simp [isBlank_of_isAsciiWord hplain])]
  have hstop : s.reverse.takeWhile isWord = [] := by
    rw [← List.head?_reverse] at hs
    cases hr : s.reverse with
    | nil => rfl
    | cons c cs => simp [hs c (by rw [hr]; rfl)]
  rw [lastWord, hskip, List.takeWhile_append_of_pos fun c hc =>
    isWord_of_isAsciiWord (hword c (List.mem_reverse.mp hc)), hstop, List.append_nil,
    List.reverse_reverse]

/-- **A property declared as something else is no array.** -/
theorem declaresArray_eq_false {name s type rest : Text} (hs : '$' ∉ s) (hrest : '$' ∉ rest)
    (htype : Capital type) (hmark : ∀ c ∈ s.getLast?, isWord c = false) :
    declaresArray name none (s ++ (type ++ (' ' :: '$' :: rest))) = false := by
  rw [← Bool.not_eq_true]
  intro h
  obtain ⟨u, v, heq, hlast, harray⟩ := exists_of_declaresArray h
  obtain ⟨b, r, rfl, hb⟩ := eq_of_arrayOf harray
  -- the dollar sign is the same one, so `array` and blanks stand directly in front of it
  have hcut : u ++ ("array" ++ b) = s ++ (type ++ [' ']) := by
    have hassoc : (u ++ ("array" ++ b)) ++ '$' :: r = (s ++ (type ++ [' '])) ++ '$' :: rest := by
      simpa only [List.append_assoc, List.cons_append, List.nil_append] using heq.symm
    refine (append_cons_inj hassoc ?_ hrest).1
    have htype : '$' ∉ type := htype.1.notMem (by decide)
    simp [hs, htype]
  have hblank : ∀ c ∈ ([' '] : Text), isBlank c = true := by decide
  have harrayWord : lastWord (u ++ ("array" ++ b)) = "array" :=
    lastWord_append (by decide) (by decide) (by simpa using hlast) hb
  have htypeWord : lastWord (s ++ (type ++ [' '])) = type := by
    refine lastWord_append htype.1 ?_ hmark hblank
    rintro rfl
    cases htype.2
  rw [hcut, htypeWord] at harrayWord
  rw [harrayWord] at htype
  exact absurd htype (by decide)

end EntityScaffold.Source
