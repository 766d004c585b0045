import EntityScaffold.Proofs.Source.Brackets
import EntityScaffold.Proofs.Source.KeptCode
import EntityScaffold.Proofs.Source.Marks
import EntityScaffold.Proofs.Text.Shifted

/-!
# Where a member ends, for itself

Whether a text ends where the member ends that begins it depends on the brackets of the text
alone.  `EndsMember` says so without positions, along the text: what a search for the end of the
member and a search for the end of the class do on such a text follows from it, whatever stands
behind.

* `endsMember_of_extent?`, `EndsMember.extent?` — the search for the end of a member.
* `EndsMember.closingBrace?` — the search for the end of a class passes over such a text.
* `EndsMember.shifted` — spaces and tabs at the beginnings of lines do not matter.
-/

set_option autoImplicit false

namespace EntityScaffold.Source

open Text

/-- The text ends where the member ends. `openers` are the brackets that are open in front of it,
the innermost first, and `begun` tells whether the member's first block has been opened. -/
inductive EndsMember : List Char → Bool → Text → Prop where
  | semicolon (begun : Bool) : EndsMember [] begun [';']
  | brace : EndsMember ['\x7b'] true ['\x7d']
  | next {openers openers' : List Char} {begun : Bool} {c : Char} {t : Text}
      (step : bracketStep openers c = some openers') (outside : ¬ (c = ';' ∧ openers = []))
      (unclosed : ¬ (c = '\x7d' ∧ openers' = [] ∧ begun = true))
      (more : EndsMember openers' (begun || (c == '\x7b' && openers.isEmpty)) t) :
      EndsMember openers begun (c :: t)

theorem brace_iff_of_closerOf? {o c : Char} (h : closerOf? o = some c) :
    c = '\x7d' ↔ o = '\x7b' :=
  closes_iff h rfl

/-! ## The search for the end of a member -/

/-- Where the first block opens, after one more character. -/
def blockBehind (openers : List Char) (block : Option Nat) (pos : Nat) (c : Char) : Option Nat :=
  if c = '\x7b' && openers.isEmpty && block.isNone then some pos else block

theorem isSome_blockBehind (openers : List Char) (block : Option Nat) (pos : Nat) (c : Char) :
    (blockBehind openers block pos c).isSome =
      (block.isSome || (c == '\x7b' && openers.isEmpty)) := by
  unfold blockBehind
  cases block <;> cases openers <;> by_cases hc : c = '\x7b' <;> simp [hc]

theorem blockBehind_of_ne {c : Char} (hc : c ≠ '\x7b') (openers : List Char) (block : Option Nat)
    (pos : Nat) : blockBehind openers block pos c = block := by
  simp [blockBehind, hc]

theorem lt_of_blockBehind {openers : List Char} {block : Option Nat} {pos : Nat} {c : Char}
    (h : ∀ s, block = some s → s < pos) :
    ∀ s, blockBehind openers block pos c = some s → s < pos + 1 := by
  intro s hs
  unfold blockBehind at hs
  split at hs
  · cases hs
    omega
  · exact Nat.lt_succ_of_lt (h s hs)

/-- No member ends where brackets do not match. -/
theorem extentFrom_of_bracketStep {openers : List Char} {c : Char}
    (h : bracketStep openers c = none) (block : Option Nat) (pos : Nat) (t : Text) :
    extentFrom openers block pos (c :: t) = none := by
  obtain ⟨hc, hother⟩ := bracketStep_eq_none_iff.mp h
  have ho := isOpener_of_isCloser hc
  cases openers with
  | nil => simp [extentFrom, ho, hc]
  | cons o outer => simp [extentFrom, ho, hc, hother o (by simp)]

/-- A character behind which the member goes on. -/
theorem extentFrom_next {openers openers' : List Char} {block : Option Nat} {c : Char}
    (hstep : bracketStep openers c = some openers') (houtside : ¬ (c = ';' ∧ openers = []))
    (hunclosed : ¬ (c = '\x7d' ∧ openers' = [] ∧ block.isSome = true)) (pos : Nat) (t : Text) :
    extentFrom openers block pos (c :: t) =
      extentFrom openers' (blockBehind openers block pos c) (pos + 1) t := by
  have hne : isOpener c = false → c ≠ '\x7b' := by
    rintro ho rfl
    cases ho
  rcases bracketStep_cases hstep with ⟨ho, rfl⟩ | ⟨ho, hc, o, rfl, hoc⟩ | ⟨ho, hc, rfl⟩
  · simp only [extentFrom, ho, if_true, blockBehind]
  · have hnone : (if c = '\x7d' && openers'.isEmpty then block else none) = none := by
      split
      · rename_i hend
        rw [Bool.and_eq_true, decide_eq_true_eq, List.isEmpty_iff] at hend
        cases block with
        | none => rfl
        | some s => exact absurd ⟨hend.1, hend.2, rfl⟩ hunclosed
      · rfl
    simp only [extentFrom, ho, hc, hoc, hnone, blockBehind_of_ne (hne ho), Bool.false_eq_true,
      if_false, if_true, ne_eq, not_true_eq_false]
  · have hgoes : (c = ';' && openers'.isEmpty) = false := by
      rw [Bool.eq_false_iff, ne_eq, Bool.and_eq_true, decide_eq_true_eq, List.isEmpty_iff]
      exact houtside
    simp only [extentFrom, ho, hc, hgoes, blockBehind_of_ne (hne ho), Bool.false_eq_true, if_false]

theorem endsMember_of_extentFrom {openers : List Char} {block : Option Nat} {pos : Nat} {m x : Text}
    {e : Extent} (hblock : ∀ s, block = some s → s < pos)
    (h : extentFrom openers block pos (m ++ x) = some e) (hsize : e.size = pos + m.length) :
    EndsMember openers block.isSome m := by
  induction m generalizing openers block pos with
  | nil =>
    have := (bounds_of_extentFrom hblock h).1
    simp only [List.length_nil] at hsize
    omega
  | cons c m ih =>
    rw [List.length_cons] at hsize
    -- where the member ends with this character, nothing is left of the text
    have hlast : e.size = pos + 1 → m = [] := fun h => List.length_eq_zero_iff.mp (by omega)
    rw [List.cons_append] at h
    cases hstep : bracketStep openers c with
    | none =>
      rw [extentFrom_of_bracketStep hstep] at h
      cases h
    | some openers' =>
      by_cases houtside : c = ';' ∧ openers = []
      · obtain ⟨rfl, rfl⟩ := houtside
        obtain rfl : ⟨pos + 1, none⟩ = e := Option.some.inj h
        obtain rfl := hlast rfl
        exact .semicolon _
      by_cases hunclosed : c = '\x7d' ∧ openers' = [] ∧ block.isSome = true
      · obtain ⟨rfl, rfl, hbegun⟩ := hunclosed
        obtain ⟨s, rfl⟩ := Option.isSome_iff_exists.mp hbegun
        obtain ⟨-, hnil⟩ | ⟨-, -, o, rfl, hoc⟩ | ⟨-, hc, -⟩ := bracketStep_cases hstep
        · cases hnil
        · obtain rfl := (brace_iff_of_closerOf? hoc).mp rfl
          obtain rfl : ⟨pos + 1, some (s, pos)⟩ = e := Option.some.inj h
          obtain rfl := hlast rfl
          exact .brace
        · cases hc
      · rw [extentFrom_next hstep houtside hunclosed] at h
        refine .next hstep houtside hunclosed ?_
        rw [← isSome_blockBehind openers block pos c]
        exact ih (lt_of_blockBehind hblock) h (by omega)

/-- **What the search finds to be the member ends where the member ends.** -/
theorem endsMember_of_extent? {m x : Text} {e : Extent} (h : extent? (m ++ x) = some e)
    (hsize : e.size = m.length) : EndsMember [] false m :=
  endsMember_of_extentFrom (fun s hs => by cases hs) h (by rw [hsize, Nat.zero_add])

namespace EndsMember

variable {openers : List Char} {begun : Bool} {m m' : Text}

theorem extentFrom (h : EndsMember openers begun m) {block : Option Nat}
    (hblock : block.isSome = begun) (pos : Nat) (x : Text) :
    ∃ b, Source.extentFrom openers block pos (m ++ x) = some ⟨pos + m.length, b⟩ := by
  induction h generalizing block pos with
  | semicolon => exact ⟨none, rfl⟩
  | brace =>
    obtain ⟨s, rfl⟩ := Option.isSome_iff_exists.mp hblock
    exact ⟨some (s, pos), rfl⟩
  | @next openers openers' begun c t hstep houtside hunclosed _ ih =>
    subst hblock
    obtain ⟨b, hb⟩ := ih (isSome_blockBehind openers block pos c) (pos + 1)
    refine ⟨b, ?_⟩
    rw [List.cons_append, extentFrom_next hstep houtside hunclosed, hb, List.length_cons]
    simp only [Option.some.injEq, Extent.mk.injEq, and_true]
    omega

/-- **The search finds the end of such a member**, whatever stands behind it. -/
theorem extent? (h : EndsMember [] false m) (x : Text) :
    ∃ b, Source.extent? (m ++ x) = some ⟨m.length, b⟩ := by
  have hnone : (none : Option Nat).isSome = false := rfl
  have := h.extentFrom hnone 0 x
  rwa [Nat.zero_add] at this

/-- Such a text ends with a semicolon or a brace. -/
theorem exists_mark (h : EndsMember openers begun m) : ∃ a d, m = a ++ [d] ∧ isMark d = true := by
  induction h with
  | semicolon => exact ⟨[], ';', rfl, by decide⟩
  | brace => exact ⟨[], '\x7d', rfl, by decide⟩
  | next _ _ _ _ ih =>
    obtain ⟨a, d, rfl, hd⟩ := ih
    exact ⟨_ :: a, d, rfl, hd⟩

/-! ## The search for the end of a class -/

/-- The braces that are open in front of the text are closed in it, all other ones match. -/
theorem closingBrace?_add (h : EndsMember openers begun m) {depth : Nat} (hdepth : 0 < depth)
    (u : Text) : Source.closingBrace? (depth + openers.count '\x7b') (m ++ u) =
      (Source.closingBrace? depth u).map (m.length + ·) := by
  have hmap : ∀ {n : Nat} {o : Option Nat}, (o.map (n + ·)).map (· + 1) = o.map (n + 1 + ·) := by
    intro n o
    rw [Option.map_map]
    congr 1
    funext k
    simp only [Function.comp_apply]
    omega
  have hone : (Source.closingBrace? depth u).map (· + 1) =
      (Source.closingBrace? depth u).map (1 + ·) :=
    congrArg (Option.map · _) (funext fun n => Nat.add_comm n 1)
  induction h with
  | semicolon =>
    change (Source.closingBrace? depth u).map (· + 1) = _
    rw [hone]
    rfl
  | brace =>
    have hdeep : ¬ (depth + 1 ≤ 1) := by omega
    change Source.closingBrace? (depth + 1) ('\x7d' :: u) = _
    rw [Source.closingBrace?, if_neg (by decide), if_pos rfl, if_neg hdeep, Nat.add_sub_cancel]
    exact hone
  | @next openers openers' begun c t hstep _ _ _ ih =>
    rw [List.cons_append, Source.closingBrace?, List.length_cons]
    rcases bracketStep_cases hstep with ⟨ho, rfl⟩ | ⟨ho, hc, o, rfl, hoc⟩ | ⟨ho, hc, rfl⟩
    · have hclose : c ≠ '\x7d' := by
        rintro rfl
        cases ho
      rw [List.count_cons] at ih
      split
      · rename_i hc
        rw [hc, beq_self_eq_true, if_pos rfl, ← Nat.add_assoc] at ih
        rw [ih, hmap]
      · rename_i hc
        rw [beq_false_of_ne hc, if_neg Bool.false_ne_true, Nat.add_zero] at ih
        rw [ih, hmap]
    · have hopen : c ≠ '\x7b' := by
        rintro rfl
        cases ho
      rw [if_neg hopen, List.count_cons]
      split
      · rename_i hc
        have hdeep : ¬ (depth + (openers'.count '\x7b' + 1) ≤ 1) := by omega
        rw [(brace_iff_of_closerOf? hoc).mp hc, beq_self_eq_true, if_pos rfl, if_neg hdeep,
          ← Nat.add_assoc, Nat.add_sub_cancel, ih, hmap]
      · rename_i hc
        have ho : o ≠ '\x7b' := fun ho => hc ((brace_iff_of_closerOf? hoc).mpr ho)
        rw [beq_false_of_ne ho, if_neg Bool.false_ne_true, Nat.add_zero, ih, hmap]
    · have hopen : c ≠ '\x7b' := by
        rintro rfl
        cases ho
      have hclose : c ≠ '\x7d' := by
        rintro rfl
        cases hc
      rw [if_neg hopen, if_neg hclose, ih, hmap]

/-- **The search for the brace that closes a class passes over a member.** -/
theorem closingBrace? (h : EndsMember [] false m) (u : Text) :
    Source.closingBrace? 1 (m ++ u) = (Source.closingBrace? 1 u).map (m.length + ·) :=
  h.closingBrace?_add Nat.one_pos u

/-! ## Blanks that do not matter -/

/-- Blanks in front do not matter. -/
theorem blanks_append_iff {x : Text} (hx : ∀ c ∈ x, isBlank c = true) :
    EndsMember openers begun (x ++ m) ↔ EndsMember openers begun m := by
  induction x with
  | nil => rfl
  | cons c x ih =>
    have hne : ∀ {d : Char}, isBlank d = false → c ≠ d := ne_of_isBlank (hx c (by simp))
    have hopener : isOpener c = false := by
      simp [isOpener, hne (d := '(') (by decide), hne (d := '[') (by decide),
        hne (d := '\x7b') (by decide)]
    have hcloser : isCloser c = false := by
      simp [isCloser, hne (d := ')') (by decide), hne (d := ']') (by decide),
        hne (d := '\x7d') (by decide)]
    have hstep : bracketStep openers c = some openers := bracketStep_of_plain hopener hcloser openers
    have hbegun : (begun || (c == '\x7b' && openers.isEmpty)) = begun := by
      rw [beq_false_of_ne (hne (by decide)), Bool.false_and, Bool.or_false]
    have hmore : ∀ d ∈ x, isBlank d = true := fun d hd => hx d (by simp [hd])
    refine Iff.trans ?_ (ih hmore)
    constructor
    · intro h
      generalize hw : c :: x ++ m = w at h
      cases h with
      | semicolon => exact absurd (List.cons.inj hw).1 (hne (by decide))
      | brace => exact absurd (List.cons.inj hw).1 (hne (by decide))
      | next hstep' _ _ hmore =>
        obtain ⟨rfl, rfl⟩ := List.cons.inj hw
        rw [hstep] at hstep'
        cases hstep'
        rwa [hbegun] at hmore
    · intro h
      exact .next hstep (fun hsemi => hne (by decide) hsemi.1)
        (fun hbrace => hne (by decide) hbrace.1) (hbegun.symm ▸ h)

/-- **A member ends where it does in a shifted text.** -/
theorem shifted {start : Bool} (h : EndsMember openers begun m) (hm : Shifted start m m') :
    EndsMember openers begun m' := by
  induction hm generalizing openers begun with
  | nil => exact h
  | @char _ c s t hst ih =>
    have hend : ∀ {d : Char} {t : Text}, (d == '\n') = false → Shifted (d == '\n') [] t → t = [] :=
      fun hd hst => (hd ▸ hst : Shifted false [] _).eq_of_notMem (by simp)
    cases h with
    | semicolon =>
      rw [hend (by decide) hst]
      exact .semicolon _
    | brace =>
      rw [hend (by decide) hst]
      exact .brace
    | next hstep hsemi hbrace hmore => exact .next hstep hsemi hbrace (ih hmore)
  | lead hx hy _ ih =>
    rw [blanks_append_iff fun c hc => isBlank_of_isSpaceTab (hx c hc)] at h
    rw [blanks_append_iff fun c hc => isBlank_of_isSpaceTab (hy c hc)]
    exact ih h

end EndsMember

end EntityScaffold.Source
