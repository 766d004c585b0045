import EntityScaffold.Proofs.Rendered.Accessors

/-!
# Namespaces and types

Names between backslashes.

* `PlainNamespace` — a plain namespace; no word of a class header is complete in it.
* `PlainType` — a plain type, which may be marked as one that admits null.
* `PlainType.isFieldType` — a field can be declared with it.
-/

set_option autoImplicit false

namespace EntityScaffold

open Text Source

/-! ## Namespaces -/

def isNamespaceChar (c : Char) : Bool := isAsciiWord c || c == '\\'

/-- A plain namespace: names between backslashes. -/
def PlainNamespace (t : Text) : Prop := ∀ c ∈ t, isNamespaceChar c = true

instance (t : Text) : Decidable (PlainNamespace t) := List.decidableBAll _ t

/-- What holds of every character of a namespace can be computed. -/
theorem forall_isNamespaceChar {p : Char → Bool}
    (h : ∀ n < 128, isNamespaceChar (Char.ofNat n) = true → p (Char.ofNat n) = true) {c : Char}
    (hc : isNamespaceChar c = true) : p c = true := by
  have hlt : c.toNat < 128 := by
    simp only [isNamespaceChar, Bool.or_eq_true, beq_iff_eq] at hc
    rcases hc with hc | rfl
    · exact toNat_lt_of_isAsciiWord hc
    · decide
  have := h c.toNat hlt
  rw [Char.ofNat_toNat] at this
  exact this hc

theorem PlainNamespace.notMem {t : Text} (h : PlainNamespace t) {d : Char}
    (hd : isNamespaceChar d = false) : d ∉ t := by
  intro hm
  rw [h d hm] at hd
  cases hd

theorem PlainNamespace.append {s t : Text} (hs : PlainNamespace s) (ht : PlainNamespace t) :
    PlainNamespace (s ++ t) := by
  intro c hc
  rcases List.mem_append.mp hc with hc | hc
  · exact hs c hc
  · exact ht c hc

theorem Source.Plain.namespace {t : Text} (h : Plain t) : PlainNamespace t := by
  intro c hc
  rw [isNamespaceChar, h c hc, Bool.true_or]

/-- No blank is in a namespace, so no word of a header is complete in it. -/
theorem headRun_namespace {t : Text} (h : PlainNamespace t) (words : List Text) :
    ∃ words', headRun words t = some words' := by
  induction t generalizing words with
  | nil => exact ⟨words, rfl⟩
  | cons c t ih =>
    have hc := h c (by simp)
    have hblank : isBlank c = false := by
      have := forall_isNamespaceChar (p := fun c => !isBlank c) (by decide) hc
      simpa using this
    have hrest : PlainNamespace t := fun d hd => h d (List.mem_cons_of_mem c hd)
    rw [headRun_cons, headStep, hblank, if_neg Bool.false_ne_true]
    split
    · rw [Option.bind_some]
      exact ih hrest _
    · rw [Option.bind_some]
      exact ih hrest _

/-! ## Types -/

/-- The type without the mark of one that admits null. -/
def bareType (t : Text) : Text := (after? "?" t).getD t

/-- The words that begin the declaration of a member or of a class. -/
def declarationWords : List Text :=
  ("class" : Text) :: "function" :: (classModifiers ++ methodModifiers ++ propertyModifiers)

/-- A plain type: a name, which may be qualified and may be marked as one that admits null.  No word
that begins a declaration begins with it. -/
structure PlainType (t : Text) : Prop where
  name : PlainNamespace (bareType t)
  content : bareType t ≠ []
  free : ∀ w ∈ declarationWords, startsWith (bareType t) w = false

/-- What is left to read of the words of a header behind a qualified name. -/
theorem headRun_qualified {t : Text} (h : PlainNamespace t) (words : List Text) :
    headRun words t = some (if '\\' ∈ t then [] else words.filterMap (after? t)) := by
  induction t generalizing words with
  | nil => simp [headRun, after?]
  | cons c t ih =>
    have hc := h c (by simp)
    have hrest : PlainNamespace t := fun d hd => h d (List.mem_cons_of_mem c hd)
    have hblank : isBlank c = false := by
      have := forall_isNamespaceChar (p := fun c => !isBlank c) (by decide) hc
      simpa using this
    rw [headRun_cons, headStep, hblank, if_neg Bool.false_ne_true]
    by_cases hslash : c = '\\'
    · subst hslash
      have hnone : headRun [] t = some [] := by simpa using ih hrest []
      rw [if_neg (by decide), if_neg (by decide), if_pos List.mem_cons_self, Option.bind_some,
        hnone]
    · have hword : isWord c = true := by
        refine isWord_of_isAsciiWord ?_
        simpa [isNamespaceChar, hslash] using hc
      have hafter : ∀ w, (after? [c] w).bind (after? t) = after? (c :: t) w := by
        intro w
        cases w with
        | nil => rfl
        | cons d w =>
          simp only [after?]
          split <;> simp
      have hmem : '\\' ∈ c :: t ↔ '\\' ∈ t := by simp [Ne.symm hslash]
      rw [if_pos hword, Option.bind_some, ih hrest, continued, List.filterMap_filterMap]
      simp only [hafter, hmem]

theorem isType_of_free {t : Text} (h : PlainNamespace t) (hne : t ≠ [])
    (hfree : ∀ w ∈ headWords, startsWith t w = false) : IsType t ∧ IsType ('?' :: t) := by
  have hchars : ∀ c ∈ t, isTypeChar c = true := fun c hc =>
    forall_isNamespaceChar (p := isTypeChar) (by decide) (h c hc)
  have hwords : headRun headWords t = some [] := by
    rw [headRun_qualified h]
    split
    · rfl
    · refine congrArg some (List.filterMap_eq_nil_iff.mpr fun w hw => ?_)
      simpa [startsWith] using hfree w hw
  have hmark : headStep headWords '?' = some headWords := by decide
  refine ⟨⟨hchars, hne, hwords⟩, ⟨fun c hc => ?_, List.cons_ne_nil _ _, ?_⟩⟩
  · rcases List.mem_cons.mp hc with rfl | hc
    · decide
    · exact hchars c hc
  · rw [headRun_cons, hmark]
    exact hwords

/-- **A field can be declared with a plain type.** -/
theorem PlainType.isFieldType {t : Text} (h : PlainType t) : IsFieldType t := by
  have hincluded : ∀ w ∈ headWords ++ ("function" : Text) :: (methodModifiers ++ propertyModifiers),
      w ∈ declarationWords := by decide
  obtain ⟨hbare, hmarked⟩ := isType_of_free h.name h.content fun w hw =>
    h.free w (hincluded w (List.mem_append_left _ hw))
  have hword : bareType t ∉ ("function" : Text) :: (methodModifiers ++ propertyModifiers) := by
    intro hm
    have hfree := h.free (bareType t) (hincluded _ (List.mem_append_right _ hm))
    have hself : after? (bareType t) (bareType t) = some [] := by
      simpa using after?_append (bareType t) []
    rw [startsWith, hself] at hfree
    cases hfree
  have hform : ∀ nullable, Render.nullableType t nullable = bareType t ∨
      Render.nullableType t nullable = '?' :: bareType t := by
    intro nullable
    rw [Render.nullableType, startsWith, bareType]
    cases hafter : after? "?" t with
    | some u =>
      rw [eq_append_of_after? hafter]
      exact .inr (by simp)
    | none =>
      simp only [Option.getD_none]
      split
      · exact .inr rfl
      · exact .inl rfl
  intro nullable
  rcases hform nullable with heq | heq
  · rw [heq]
    exact ⟨hbare, hword⟩
  · rw [heq]
    exact ⟨hmarked, reference_free _⟩

end EntityScaffold
