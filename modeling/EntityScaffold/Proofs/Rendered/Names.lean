import EntityScaffold.Naming
import EntityScaffold.Proofs.Source.Recognised

/-!
# Names that are accepted

* `hasShape_iff` — the shape of a name, once a line feed at its end is off.
* `isIdentifier_iff`, `isClassName_iff`, `isEntityName_iff` — the accepted names are plain and no
  reserved words, but for such a line feed.
* `isIdentifier_lineFeed` — behind it reserved words are accepted, too.
* `name_of_isIdentifier`, `capital_of_isClassName` — what plain names are accepted as.
-/

set_option autoImplicit false

namespace EntityScaffold

open Text Source

/-! ## A line feed at the end -/

theorem dropFinalLineFeed_of_notMem {t : Text} (h : '\n' ∉ t) : dropFinalLineFeed t = t := by
  rw [dropFinalLineFeed, if_neg]
  exact fun hlast => h (List.mem_of_getLast? hlast)

theorem dropFinalLineFeed_append (t : Text) : dropFinalLineFeed (t ++ ['\n']) = t := by
  rw [dropFinalLineFeed, if_pos List.getLast?_concat, List.dropLast_concat]

theorem dropFinalLineFeed_of_plain {t : Text} (h : Plain t) : dropFinalLineFeed t = t :=
  dropFinalLineFeed_of_notMem (h.notMem rfl)

/-! ## Shapes -/

/-- **The shape of a name.**  Where the characters to begin with are among those to go on with, it
asks for a character of the first kind, for characters of the second kind only, and for enough of
them. -/
theorem hasShape_iff {first rest : Char → Bool} {least : Nat} {name : Text}
    (hfirst : ∀ c, first c = true → rest c = true) :
    hasShape first rest least name = true ↔
      (dropFinalLineFeed name).head?.any first = true ∧
        (∀ c ∈ dropFinalLineFeed name, rest c = true) ∧
        least < (dropFinalLineFeed name).length := by
  rw [hasShape]
  cases dropFinalLineFeed name with
  | nil => simp
  | cons c t =>
    simp only [Bool.and_eq_true, List.all_eq_true, decide_eq_true_eq, List.head?_cons,
      Option.any_some, List.forall_mem_cons, List.length_cons, Nat.lt_succ_iff, and_assoc]
    exact ⟨fun ⟨hc, ht, hn⟩ => ⟨hc, hfirst c hc, ht, hn⟩, fun ⟨hc, _, ht, hn⟩ => ⟨hc, ht, hn⟩⟩

theorem isAlphanumeric_of_isAsciiUpper {c : Char} (h : isAsciiUpper c = true) :
    isAlphanumeric c = true := by
  simp [isAlphanumeric, isAsciiLetter, h]

theorem isAsciiWord_of_isNameStart {c : Char} (h : isNameStart c = true) :
    isAsciiWord c = true := by
  simp only [isNameStart, Bool.or_eq_true] at h
  simp only [isAsciiWord, Bool.or_eq_true]
  exact h.imp_left .inl

/-- Letters and digits are what is left of the ASCII word characters without the underscore. -/
theorem isAlphanumeric_iff {c : Char} :
    isAlphanumeric c = true ↔ isAsciiWord c = true ∧ c ≠ '_' := by
  have hunderscore : isAlphanumeric '_' = false := by decide
  rw [isAsciiWord, ← isAlphanumeric, Bool.or_eq_true, beq_iff_eq]
  constructor
  · intro h
    refine ⟨.inl h, ?_⟩
    rintro rfl
    rw [hunderscore] at h
    cases h
  · rintro ⟨h, hne⟩
    exact h.resolve_right hne

theorem not_isReserved_iff {name : Text} :
    (!isReserved name) = true ↔ lower name ∉ reservedWords := by
  rw [isReserved, Bool.not_eq_true', ← Bool.not_eq_true, List.contains_iff_mem]

/-! ## The accepted names -/

section

variable {name : Text}

/-- **The names of properties.** -/
theorem isIdentifier_iff : isIdentifier name = true ↔
    Name (dropFinalLineFeed name) ∧ lower name ∉ reservedWords := by
  rw [isIdentifier, Bool.and_eq_true, not_isReserved_iff,
    hasShape_iff fun _ => isAsciiWord_of_isNameStart]
  refine and_congr_left fun _ => ⟨fun ⟨hstart, hplain, _⟩ => ⟨hstart, hplain⟩, fun h => ?_⟩
  refine ⟨h.start, h.plain, List.length_pos_iff.mpr fun hnil => ?_⟩
  have hstart := h.start
  rw [hnil] at hstart
  cases hstart

/-- **The names of classes.** -/
theorem isClassName_iff : isClassName name = true ↔
    Capital (dropFinalLineFeed name) ∧ lower name ∉ reservedWords := by
  rw [isClassName, Bool.and_eq_true, not_isReserved_iff,
    hasShape_iff fun _ h => (isAlphanumeric_iff.mp (isAlphanumeric_of_isAsciiUpper h)).1]
  refine and_congr_left fun _ => ⟨fun ⟨hstart, hplain, _⟩ => ⟨hplain, hstart⟩, fun h => ?_⟩
  refine ⟨h.2, h.1, List.length_pos_iff.mpr fun hnil => ?_⟩
  have hstart := h.2
  rw [hnil] at hstart
  cases hstart

/-- **The names of entities** are those of classes with two characters or more and without an
underscore. -/
theorem isEntityName_iff : isEntityName name = true ↔
    Capital (dropFinalLineFeed name) ∧ '_' ∉ dropFinalLineFeed name ∧
      2 ≤ (dropFinalLineFeed name).length ∧ lower name ∉ reservedWords := by
  have hall : (∀ c ∈ dropFinalLineFeed name, isAlphanumeric c = true) ↔
      Plain (dropFinalLineFeed name) ∧ '_' ∉ dropFinalLineFeed name := by
    simp only [isAlphanumeric_iff]
    exact ⟨fun h => ⟨fun c hc => (h c hc).1, fun hc => (h _ hc).2 rfl⟩,
      fun h c hc => ⟨h.1 c hc, fun heq => h.2 (heq ▸ hc)⟩⟩
  rw [isEntityName, Bool.and_eq_true, not_isReserved_iff,
    hasShape_iff fun _ => isAlphanumeric_of_isAsciiUpper, hall]
  constructor
  · rintro ⟨⟨hstart, ⟨hplain, hnot⟩, hlength⟩, hfree⟩
    exact ⟨⟨hplain, hstart⟩, hnot, hlength, hfree⟩
  · rintro ⟨⟨hplain, hstart⟩, hnot, hlength, hfree⟩
    exact ⟨⟨hstart, ⟨hplain, hnot⟩, hlength⟩, hfree⟩

/-- The name of an entity is that of a class. -/
theorem isClassName_of_isEntityName (h : isEntityName name = true) : isClassName name = true := by
  obtain ⟨hcapital, -, -, hfree⟩ := isEntityName_iff.mp h
  exact isClassName_iff.mpr ⟨hcapital, hfree⟩

/-- **An accepted name on one line is plain.** -/
theorem name_of_notMem (hfeed : '\n' ∉ name) (h : isIdentifier name = true) : Name name := by
  have := (isIdentifier_iff.mp h).1
  rwa [dropFinalLineFeed_of_notMem hfeed] at this

theorem capital_of_notMem (hfeed : '\n' ∉ name) (h : isClassName name = true) : Capital name := by
  have := (isClassName_iff.mp h).1
  rwa [dropFinalLineFeed_of_notMem hfeed] at this

/-- Plain identifiers are names. -/
theorem name_of_isIdentifier (hp : Plain name) (h : isIdentifier name = true) : Name name :=
  name_of_notMem (hp.notMem rfl) h

/-- Plain names of classes begin with a capital letter. -/
theorem capital_of_isClassName (hp : Plain name) (h : isClassName name = true) : Capital name :=
  capital_of_notMem (hp.notMem rfl) h

/-- No reserved word ends in a line feed. -/
theorem lower_lineFeed_notMem (h : Plain name) : lower (name ++ ['\n']) ∉ reservedWords := by
  have hascii : ∀ c ∈ name ++ ['\n'], c.toNat < 0x80 := by
    intro c hc
    rcases List.mem_append.mp hc with hc | hc
    · exact toNat_lt_of_isAsciiWord (h c hc)
    · rw [List.mem_singleton.mp hc]
      decide
  have hwords : ∀ w ∈ reservedWords, '\n' ∉ w := by decide
  intro hmem
  refine hwords _ hmem ?_
  rw [lower_of_ascii hascii, List.map_append]
  exact List.mem_append_right _ (by decide)

/-- **Behind a line feed every name is accepted**, and it may be a reserved word. -/
theorem isIdentifier_lineFeed : isIdentifier (name ++ ['\n']) = true ↔ Name name := by
  rw [isIdentifier_iff, dropFinalLineFeed_append]
  exact and_iff_left_of_imp fun h => lower_lineFeed_notMem h.plain

/-- `class` is no name of a property, and with a line feed at its end it is one. -/
example : isIdentifier "class" = false ∧ isIdentifier "class\n" = true := by decide

end

end EntityScaffold
