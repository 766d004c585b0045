import EntityScaffold.Proofs.Source.Headers
import EntityScaffold.Proofs.Source.Marks
import EntityScaffold.Proofs.Source.Stopping
import EntityScaffold.Proofs.Text.Shifted

/-!
# The words that open a class

A class header holds the word `class` with white space behind it, so a masked text without that word
adds no header to what stands in front of it.  Whether a header begins in a text that ends with a
brace does not depend on what follows the brace, since no header goes on behind its first one.

* `hasClassWord` — whether the word stands in a text.
* `classHeadersFrom_of_noWord` — without it no header is found.
* `hasClassWord_shifted`, `hasClassWord_append_line` — spaces and tabs at the beginnings of lines,
  and lines put together.
* `classHeader?_brace` — a header is found in front of anything that follows its brace.
* `classHeaders_append` — the headers of a text that ends with a brace, with a text behind it that
  does not hold the word.
-/

set_option autoImplicit false

namespace EntityScaffold.Source

open Text

/-- Whether the text begins with `class` and a blank. -/
def opensClass (t : Text) : Bool := ((after? "class" t).bind blanks?).isSome

/-- Whether the word `class` stands in a text with a blank behind it; `prev` is the preceding
character. -/
def hasClassWord (prev : Option Char) : Text → Bool
  | [] => false
  | c :: t => (!prev.any isWord && opensClass (c :: t)) || hasClassWord (some c) t

section

variable {prev prev' : Option Char} {s t u : Text}

theorem opensClass_iff : opensClass t = true ↔
    ∃ (b : Char) (r : Text), t = "class" ++ b :: r ∧ isBlank b = true := by
  constructor
  · intro h
    obtain ⟨v, hv⟩ := Option.isSome_iff_exists.mp h
    obtain ⟨r, hr, hblanks⟩ := Option.bind_eq_some_iff.mp hv
    obtain ⟨b, r, rfl, hb⟩ := eq_cons_of_blanks? hblanks
    exact ⟨b, r, eq_append_of_after? hr, hb⟩
  · rintro ⟨b, r, rfl, hb⟩
    rw [opensClass, after?_append, Option.bind_some, blanks?, if_pos hb]
    rfl

theorem opensClass_of_head (h : ∀ c ∈ t.head?, c ≠ 'c') : opensClass t = false := by
  rw [Bool.eq_false_iff]
  intro hopens
  obtain ⟨b, r, rfl, -⟩ := opensClass_iff.mp hopens
  exact h 'c' rfl rfl


/-- A text without the first letter of the word. -/
theorem hasClassWord_of_notMem (h : 'c' ∉ t) (prev : Option Char) :
    hasClassWord prev t = false := by
  induction t generalizing prev with
  | nil => rfl
  | cons c t ih =>
    simp only [List.mem_cons, not_or] at h
    rw [hasClassWord, opensClass_of_head (by simpa using Ne.symm h.1), Bool.and_false,
      Bool.false_or, ih h.2]

theorem hasClassWord_of_opensClass (h : opensClass t = true) (hprev : prev.any isWord = false) :
    hasClassWord prev t = true := by
  cases t with
  | nil => cases h
  | cons c t => simp [hasClassWord, h, hprev]

/-- Where the word does not stand in a text, it does not stand in the rest of it. -/
theorem hasClassWord_append_right {b : Char} (h : hasClassWord prev (s ++ b :: t) = false) :
    hasClassWord (some b) t = false := by
  induction s generalizing prev with
  | nil =>
    rw [List.nil_append, hasClassWord, Bool.or_eq_false_iff] at h
    exact h.2
  | cons c s ih =>
    rw [List.cons_append, hasClassWord, Bool.or_eq_false_iff] at h
    exact ih h.2

/-! ## Without the word no header begins -/

/-- A modifier is read together with the blanks behind it. -/
theorem blank_of_keyword? {keywords : List Text} {r : Text} (h : keyword? keywords t = some r) :
    ∃ a b, t = a ++ b :: r ∧ isBlank b = true := by
  obtain ⟨w, -, hw⟩ := List.exists_of_findSome?_eq_some h
  obtain ⟨v, hv, hr⟩ := Option.bind_eq_some_iff.mp hw
  obtain ⟨c, v, rfl, hc⟩ := eq_cons_of_blanks? hr
  rw [blanks?, if_pos hc, Option.some.injEq] at hr
  -- the last of the blanks stands in front of the rest
  obtain ⟨a, b, hab⟩ : ∃ a b, c :: v.takeWhile isBlank = a ++ [b] := by
    have := List.eq_nil_or_concat (c :: v.takeWhile isBlank)
    simpa using this
  refine ⟨w ++ a, b, ?_, ?_⟩
  · rw [eq_append_of_after? hv, ← hr, List.append_assoc, List.append_cons a b, ← hab,
      List.cons_append, List.takeWhile_append_dropWhile]
  · have hmem : b ∈ c :: v.takeWhile isBlank := by rw [hab]; simp
    rcases List.mem_cons.mp hmem with rfl | hmem
    · exact hc
    · exact List.all_eq_true.mp List.all_takeWhile b hmem

theorem blank_of_steps (keywords : List Text) (t : Text) :
    steps (keyword? keywords) t = t ∨
      ∃ a b, t = a ++ b :: steps (keyword? keywords) t ∧ isBlank b = true := by
  have hwith : ∀ fuel t, stepsWith (keyword? keywords) fuel t = t ∨
      ∃ a b, t = a ++ b :: stepsWith (keyword? keywords) fuel t ∧ isBlank b = true := by
    intro fuel
    induction fuel with
    | zero => exact fun t => .inl rfl
    | succ fuel ih =>
      intro t
      rw [stepsWith]
      cases h : keyword? keywords t with
      | none => exact .inl rfl
      | some r =>
        obtain ⟨a, b, ht, hb⟩ := blank_of_keyword? h
        simp only
        rcases ih r with hr | ⟨a', b', hr, hb'⟩
        · exact .inr ⟨a, b, by rw [hr, ht], hb⟩
        · exact .inr ⟨a ++ b :: a', b', by rw [ht, List.append_assoc, List.cons_append, ← hr], hb'⟩
  exact hwith t.length t

theorem isWord_of_endsBeforeClass (h : prev.all endsBeforeClass = true) :
    prev.any isWord = false := by
  cases prev with
  | none => rfl
  | some c =>
    have hc : endsBeforeClass c = true := h
    simp only [endsBeforeClass, Bool.not_eq_true', Bool.or_eq_false_iff] at hc
    exact hc.1.1.1.1

/-- No class header begins where the word does not stand in the text. -/
theorem classHeader?_of_noWord (h : hasClassWord prev t = false)
    (hprev : prev.all endsBeforeClass = true) : classHeader? t = none := by
  rw [Option.eq_none_iff_forall_ne_some]
  rintro ⟨name, size⟩ hheader
  simp only [classHeader?, Option.bind_eq_bind, Option.bind_eq_some_iff] at hheader
  obtain ⟨v, hv, w, hw, -⟩ := hheader
  have hopens : opensClass (steps (keyword? classModifiers) t) = true := by
    rw [opensClass, hv, Option.bind_some, hw]
    rfl
  rcases blank_of_steps classModifiers t with hsame | ⟨a, b, ht, hb⟩
  · rw [hsame] at hopens
    rw [hasClassWord_of_opensClass hopens (isWord_of_endsBeforeClass hprev)] at h
    cases h
  · rw [ht] at h
    have hbehind := hasClassWord_append_right h
    have hword : (some b).any isWord = false := isWord_of_isBlank hb
    rw [hasClassWord_of_opensClass hopens hword] at hbehind
    cases hbehind

/-- **Without the word no header is found.** -/
theorem classHeadersFrom_of_noWord (h : hasClassWord prev t = false) (pos : Nat) :
    classHeadersFrom prev pos 0 t = [] := by
  induction t generalizing prev pos with
  | nil => rfl
  | cons c t ih =>
    have hnone : (if prev.all endsBeforeClass then classHeader? (c :: t) else none) = none := by
      split
      · rename_i hprev
        exact classHeader?_of_noWord h hprev
      · rfl
    rw [hasClassWord, Bool.or_eq_false_iff] at h
    rw [classHeadersFrom, hnone]
    exact ih h.2 (pos + 1)

/-! ## The word in texts put together -/

theorem opensClass_shifted (h : Shifted false s t) (ht : opensClass t = true) :
    opensClass s = true := by
  obtain ⟨b, r, rfl, hb⟩ := opensClass_iff.mp ht
  obtain ⟨s', rfl, hs'⟩ := h.symm.exists_append (by decide)
  obtain ⟨r', rfl, -⟩ := hs'.exists_cons
  exact opensClass_iff.mpr ⟨b, r', rfl, hb⟩

/-- Of what stands in front of a text it matters only whether it is a word character. -/
theorem hasClassWord_congr (h : prev.any isWord = prev'.any isWord) (t : Text) :
    hasClassWord prev t = hasClassWord prev' t := by
  cases t with
  | nil => rfl
  | cons c t => rw [hasClassWord, hasClassWord, h]

/-- Spaces and tabs in front of a line do not matter. -/
theorem hasClassWord_spaceTabs {x : Text} (hx : ∀ c ∈ x, isSpaceTab c = true)
    (hprev : prev.any isWord = false) (t : Text) :
    hasClassWord prev (x ++ t) = hasClassWord none t := by
  induction x generalizing prev with
  | nil => exact hasClassWord_congr hprev t
  | cons c x ih =>
    have hc : c = ' ' ∨ c = '\t' := by simpa [isSpaceTab] using hx c (by simp)
    have hhead : opensClass (c :: (x ++ t)) = false :=
      opensClass_of_head (by rcases hc with rfl | rfl <;> simp)
    rw [List.cons_append, hasClassWord, hhead, Bool.and_false, Bool.false_or]
    exact ih (fun d hd => hx d (by simp [hd])) (by rcases hc with rfl | rfl <;> rfl)

/-- **The word does not stand in a shifted text** if it does not in the other one. -/
theorem hasClassWord_shifted {start : Bool} (h : Shifted start s t)
    (hprev : start = true → prev.any isWord = false) (hs : hasClassWord prev s = false) :
    hasClassWord prev t = false := by
  induction h generalizing prev with
  | nil => rfl
  | @char start c s t hst ih =>
    rw [hasClassWord, Bool.or_eq_false_iff] at hs ⊢
    refine ⟨?_, ih (fun hc => ?_) hs.2⟩
    · rw [Bool.eq_false_iff]
      intro hopens
      rw [Bool.and_eq_true] at hopens
      have := opensClass_shifted (.char c hst) hopens.2
      rw [hopens.1, this] at hs
      cases hs.1
    · rw [beq_iff_eq.mp hc]
      decide
  | lead hx hy _ ih =>
    rw [hasClassWord_spaceTabs hx (hprev rfl)] at hs
    rw [hasClassWord_spaceTabs hy (hprev rfl)]
    exact ih (by simp) hs

/-- Whether the word begins is seen up to the next line feed. -/
theorem opensClass_append_line (s t : Text) :
    opensClass (s ++ '\n' :: t) = opensClass (s ++ ['\n']) := by
  rw [Bool.eq_iff_iff, opensClass_iff, opensClass_iff]
  have hword : '\n' ∉ ("class" : Text) := by decide
  have hsplit : ∀ {t : Text} {b : Char} {r : Text}, s ++ '\n' :: t = "class" ++ b :: r →
      ∃ s', s = "class" ++ s' ∧ s' ++ '\n' :: t = b :: r := by
    intro t b r heq
    rcases List.append_eq_append_iff.mp heq with ⟨x, hx, hfeed⟩ | ⟨s', hs, heq⟩
    · cases x with
      | nil => exact ⟨[], by simpa using hx.symm, by simpa using hfeed⟩
      | cons c x =>
        obtain ⟨rfl, -⟩ := List.cons.inj hfeed
        exact absurd (hx ▸ List.mem_append_right _ List.mem_cons_self) hword
    · exact ⟨s', hs, heq.symm⟩
  have hagain : ∀ t u : Text,
      (∃ (b : Char) (r : Text), s ++ '\n' :: t = "class" ++ b :: r ∧ isBlank b = true) →
      ∃ (b : Char) (r : Text), s ++ '\n' :: u = "class" ++ b :: r ∧ isBlank b = true := by
    rintro t u ⟨b, r, heq, hb⟩
    obtain ⟨s', rfl, hs'⟩ := hsplit heq
    cases s' with
    | nil => exact ⟨'\n', u, by simp, by decide⟩
    | cons c s' =>
      obtain ⟨rfl, -⟩ := List.cons.inj hs'
      exact ⟨c, s' ++ '\n' :: u, by simp, hb⟩
  exact ⟨hagain t [], hagain [] t⟩

/-- **Lines put together** hold the word if one of them does. -/
theorem hasClassWord_append_line (h : hasClassWord prev (s ++ ['\n']) = false)
    (ht : hasClassWord (some '\n') t = false) : hasClassWord prev (s ++ '\n' :: t) = false := by
  induction s generalizing prev with
  | nil =>
    rw [List.nil_append, hasClassWord, opensClass_of_head (by simp), Bool.and_false, ht]
    rfl
  | cons c s ih =>
    rw [List.cons_append, hasClassWord, Bool.or_eq_false_iff] at h ⊢
    rw [← List.cons_append, opensClass_append_line (c :: s) t]
    exact ⟨h.1, ih h.2⟩

/-- A line feed at the end completes no word that has not been read to its last letter. -/
theorem hasClassWord_lineFeed (h : hasClassWord prev s = false) (hlast : s.getLast? ≠ some 's') :
    hasClassWord prev (s ++ ['\n']) = false := by
  induction s generalizing prev with
  | nil => rw [List.nil_append, hasClassWord_of_notMem (by simp)]
  | cons c s ih =>
    have hopens : opensClass (c :: s ++ ['\n']) = true → opensClass (c :: s) = true := by
      rw [opensClass_iff, opensClass_iff]
      rintro ⟨b, r, heq, hb⟩
      rcases List.eq_nil_or_concat r with rfl | ⟨r', d, rfl⟩
      · -- nothing stands between the word and the line feed
        obtain ⟨hword, -⟩ := List.append_inj' heq rfl
        exact absurd (by rw [hword]; rfl) hlast
      · rw [List.concat_eq_append, ← List.cons_append, ← List.append_assoc] at heq
        exact ⟨b, r', (List.append_inj' heq rfl).1, hb⟩
    rw [hasClassWord, Bool.or_eq_false_iff] at h
    rw [List.cons_append, hasClassWord, Bool.or_eq_false_iff]
    refine ⟨?_, ?_⟩
    · rw [Bool.eq_false_iff]
      intro hboth
      rw [Bool.and_eq_true] at hboth
      rw [hboth.1, hopens hboth.2] at h
      cases h.1
    · cases s with
      | nil => exact hasClassWord_of_notMem (by simp) _
      | cons d s => exact ih h.2 (by simpa using hlast)

/-! ## In front of a brace -/

/-- **Whether a header begins in front of a brace does not depend on what follows the brace.** -/
theorem classHeader?_brace (s : Text) : ∃ r, ∀ u, classHeader? (s ++ '\x7b' :: u) = r := by
  have hkeyword : StopsAt '\x7b' (keyword? classModifiers) :=
    stopsAt_keyword? (by decide) (by decide)
  have hshort : ∀ t r, keyword? classModifiers t = some r → r.length < t.length := by
    intro t r h
    obtain ⟨a, b, rfl, -⟩ := blank_of_keyword? h
    simp
    omega
  obtain ⟨s₁, hs₁⟩ := steps_stop hkeyword hshort s
  have hclass := ((stopsAt_after? (d := '\x7b') (p := "class") (by decide)).bind
    (stopsAt_blanks? (by decide))) s₁
  simp only at hclass
  simp only [classHeader?, hs₁, Option.bind_eq_bind, ← Option.bind_assoc]
  rcases hclass with hnone | ⟨s₂, hs₂⟩
  · exact ⟨none, fun u => by simp only [hnone, Option.bind_none]⟩
  rcases name?_stop (d := '\x7b') (by decide) (by decide) s₂ with hnone | ⟨name, s₃, hs₃⟩
  · exact ⟨none, fun u => by simp only [hs₂, Option.bind_some, hnone, Option.bind_none]⟩
  -- the brace is looked for up to a semicolon
  simp only [hs₂, Option.bind_some, hs₃,
    dropWhile_append_stop (d := '\x7b') (p := fun c => c != '\x7b' && c != ';') (by decide)]
  cases h : s₃.dropWhile fun c => c != '\x7b' && c != ';' with
  | nil =>
    refine ⟨some (name, s.length + 1), fun u => ?_⟩
    simp [after?]
    omega
  | cons c v =>
    by_cases hc : '\x7b' = c
    · subst hc
      refine ⟨some (name, s.length - v.length), fun u => ?_⟩
      have hbrace : after? "\x7b" ('\x7b' :: v ++ '\x7b' :: u) = some (v ++ '\x7b' :: u) :=
        after?_append "\x7b" _
      rw [hbrace, Option.bind_some]
      simp only [List.length_append, List.length_cons, Option.some.injEq, Prod.mk.injEq, true_and]
      omega
    · exact ⟨none, fun u => by simp [after?, hc]⟩

/-- The headers of a text that ends with a brace, and what is found behind it. -/
theorem classHeadersFrom_brace (s u : Text) (prev : Option Char) (pos : Nat) {skip : Nat}
    (hskip : skip ≤ s.length + 1) :
    classHeadersFrom prev pos skip (s ++ '\x7b' :: u) =
      classHeadersFrom prev pos skip (s ++ ['\x7b']) ++
        classHeadersFrom (some '\x7b') (pos + s.length + 1) 0 u := by
  induction s generalizing prev pos skip with
  | nil =>
    have hnone : ∀ u, classHeader? ('\x7b' :: u) = none := fun u => rfl
    simp only [List.length_nil] at hskip
    rw [List.nil_append, List.nil_append, classHeadersFrom.eq_def,
      classHeadersFrom.eq_def _ _ _ ['\x7b']]
    simp only [hnone, ite_self]
    match skip, hskip with
    | 0, _ => rfl
    | 1, _ => rfl
  | cons c s ih =>
    have hlen : pos + (c :: s).length + 1 = pos + 1 + s.length + 1 := by
      rw [List.length_cons]
      omega
    obtain ⟨r, hr⟩ := classHeader?_brace (c :: s)
    simp only [List.cons_append] at hr
    rw [hlen, List.cons_append, List.cons_append]
    cases skip with
    | succ skip =>
      rw [List.length_cons] at hskip
      exact ih (some c) (pos + 1) (by omega)
    | zero =>
      rw [classHeadersFrom, classHeadersFrom, hr, hr]
      split
      · rename_i name size hfound
        have hsize : size - 1 ≤ s.length + 1 := by
          split at hfound
          · rw [hfound] at hr
            obtain ⟨a, b, hab, rfl⟩ := brace_of_classHeader? (hr [])
            have := congrArg List.length hab
            simp at this
            omega
          · cases hfound
        rw [ih (some c) (pos + 1) hsize, List.cons_append]
      · exact ih (some c) (pos + 1) (Nat.zero_le _)

/-- **A text without the word adds no header** to those of a text that ends with a brace. -/
theorem classHeaders_append (s : Text) (h : hasClassWord (some '\x7b') u = false) :
    classHeaders (s ++ '\x7b' :: u) = classHeaders (s ++ ['\x7b']) := by
  rw [classHeaders, classHeadersFrom_brace s u none 0 (Nat.zero_le _), classHeadersFrom_of_noWord h,
    List.append_nil]
  rfl

end

end EntityScaffold.Source
