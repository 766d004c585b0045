import EntityScaffold.Proofs.Text.Lines
import Mathlib.Data.List.TakeWhile

/-!
# The lines of a text without the blanks around them

`trimmedLines` is the view of a text under which indentation, blank lines and blanks at the ends of
lines do not count.

* `trimmedLines_append` — a line feed parts the trimmed lines.
* `trimmedLines_blanks_append`, `trimmedLines_append_blanks` — blanks at either end do not count.
* `trimmedLines_ofLines` — the trimmed lines of lines put together.
-/

set_option autoImplicit false

namespace EntityScaffold.Text

/-- The lines of a text that are not blank, without the blanks around them. -/
def trimmedLines (t : Text) : List Text := ((lines t).map strip).filter (· != [])

theorem trimmedLines_append (s t : Text) :
    trimmedLines (s ++ '\n' :: t) = trimmedLines s ++ trimmedLines t := by
  rw [trimmedLines, lines_append, List.map_append, List.filter_append]
  rfl

theorem trimmedLines_cons_blank {c : Char} (hc : isBlank c = true) (t : Text) :
    trimmedLines (c :: t) = trimmedLines t := by
  by_cases hfeed : c = '\n'
  · subst hfeed
    exact trimmedLines_append [] t
  · simp only [trimmedLines, lines, splitAt, if_neg hfeed]
    cases h : splitAt '\n' t with
    | nil => exact absurd h (splitAt_ne_nil _ _)
    | cons l ls =>
      have hstrip : strip (c :: l) = strip l := by
        rw [strip, trimWhile, List.dropWhile_cons_of_pos hc]
        rfl
      simp only [List.map_cons, hstrip]

theorem trimmedLines_blanks_append {u : Text} (hu : ∀ c ∈ u, isBlank c = true) (t : Text) :
    trimmedLines (u ++ t) = trimmedLines t := by
  induction u with
  | nil => rfl
  | cons c u ih =>
    rw [List.cons_append, trimmedLines_cons_blank (hu c List.mem_cons_self),
      ih fun d hd => hu d (List.mem_cons_of_mem c hd)]

theorem strip_append_blank (l : Text) {c : Char} (hc : isBlank c = true) :
    strip (l ++ [c]) = strip l := by
  have hall : ∀ d ∈ [c], isBlank d = true := by simpa using hc
  cases hl : l.all isBlank with
  | true =>
    have hl : ∀ d ∈ l, isBlank d = true := List.all_eq_true.mp hl
    have hnil : ∀ t : Text, (∀ d ∈ t, isBlank d = true) → strip t = [] := by
      intro t ht
      rw [strip, trimWhile, List.dropWhile_eq_nil_iff.mpr ht]
      rfl
    rw [hnil l hl, hnil (l ++ [c]) fun d hd => (List.mem_append.mp hd).elim (hl d) (hall d)]
  | false =>
    rw [strip, trimWhile, strip, trimWhile, List.dropWhile_append, if_neg,
      dropEndWhile_append_of_all hall]
    rw [List.isEmpty_iff, List.dropWhile_eq_nil_iff, ← List.all_eq_true, hl]
    exact Bool.false_ne_true

theorem trimmedLines_append_blanks (t : Text) {u : Text} (hu : ∀ c ∈ u, isBlank c = true) :
    trimmedLines (t ++ u) = trimmedLines t := by
  induction u generalizing t with
  | nil => rw [List.append_nil]
  | cons c u ih =>
    have hone : trimmedLines (t ++ [c]) = trimmedLines t := by
      by_cases hc : c = '\n'
      · subst hc
        rw [trimmedLines_append]
        exact List.append_nil _
      · -- the last line grows
        obtain ⟨s, l, hsplit, hl⟩ : ∃ s l, (t = l ∨ t = s ++ '\n' :: l) ∧ '\n' ∉ l := by
          by_cases hmem : '\n' ∈ t
          · obtain ⟨l, s, hsplit, hl⟩ := List.eq_append_cons_of_mem (List.mem_reverse.mpr hmem)
            refine ⟨s.reverse, l.reverse, .inr ?_, by simpa using hl⟩
            rw [← List.reverse_reverse t, hsplit]
            simp
          · exact ⟨[], t, .inl rfl, hmem⟩
        have hline : trimmedLines (l ++ [c]) = trimmedLines l := by
          have hlc : '\n' ∉ l ++ [c] := by simp [hl, Ne.symm hc]
          rw [trimmedLines, trimmedLines, lines, lines, splitAt_of_notMem hl,
            splitAt_of_notMem hlc, List.map_singleton, List.map_singleton,
            strip_append_blank l (hu c List.mem_cons_self)]
        rcases hsplit with rfl | rfl
        · exact hline
        · rw [List.append_assoc, List.cons_append, trimmedLines_append, hline, trimmedLines_append]
    rw [← hone, ← ih (t ++ [c]) fun d hd => hu d (List.mem_cons_of_mem c hd), List.append_assoc]
    rfl

theorem trimmedLines_stripEnd (t : Text) : trimmedLines (stripEnd t) = trimmedLines t := by
  obtain ⟨u, hsplit, hu⟩ := exists_dropEndWhile isBlank t
  conv => rhs; rw [hsplit]
  exact (trimmedLines_append_blanks _ hu).symm

theorem trimmedLines_of_line {l : Text} (h : '\n' ∉ l) :
    trimmedLines l = [strip l].filter (· != []) := by
  rw [trimmedLines, lines, splitAt_of_notMem h, List.map_singleton]

/-- Lines put together have the trimmed lines that they have. -/
theorem trimmedLines_ofLines {ls : List Text} (h : ∀ l ∈ ls, '\n' ∉ l) :
    trimmedLines (ofLines ls) = (ls.map strip).filter (· != []) := by
  cases ls with
  | nil => rfl
  | cons l ls => rw [trimmedLines, lines_ofLines (by simp) h]

end EntityScaffold.Text
