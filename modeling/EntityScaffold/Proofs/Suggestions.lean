import EntityScaffold.Proofs.Backlog
import EntityScaffold.Proofs.JoinTables
import Mathlib.Data.List.Sort

/-!
# Suggestions for a target that is not known

The known entities are a set, so it must not matter in which order they are listed.  Candidates
are ranked by their likeness and equally alike ones by the order of texts, and no two candidates
are the same: the ranking leaves nothing open.

* `Closer`, `closeMatches_eq` — the ranking, and the close matches as a sorted list.
* `closeMatches_perm`, `mem_or_full_of_isClose` — the order of the candidates does not count, and no
  close candidate is left out unless there are enough others.
* `suggestions_of_any_order` — what is suggested.
* `validatePlan_of_same_known` — nor does the order of the known entities show in the issues of a plan.
-/

set_option autoImplicit false

namespace EntityScaffold

open Text

/-! ## The order of texts -/

theorem before_trans {s t u : Text} (h : before s t = true) (h' : before t u = true) :
    before s u = true := by
  fun_induction before s t generalizing u with
  | case1 => cases h
  | case2 =>
    cases u with
    | nil => cases h'
    | cons => rfl
  | case3 c s t ih =>
    cases u with
    | nil => cases h'
    | cons e u =>
      rw [before] at h' ⊢
      split at h'
      · rename_i hce
        rw [if_pos hce]
        exact ih h h'
      · rename_i hce
        rwa [if_neg hce]
  | case4 c s d t hne =>
    cases u with
    | nil => cases h'
    | cons e u =>
      rw [decide_eq_true_eq] at h
      rw [before] at h' ⊢
      split at h'
      · rename_i hde
        subst hde
        rw [if_neg hne]
        exact decide_eq_true h
      · rw [decide_eq_true_eq] at h'
        have hlt := h.trans h'
        rw [if_neg (by rintro rfl; exact Nat.lt_irrefl _ hlt)]
        exact decide_eq_true hlt

/-- What is not before is behind or the same, so this goes along, too. -/
theorem not_before_trans {s t u : Text} (h : before s t = false) (h' : before t u = false) :
    before s u = false := by
  cases hts : before t s with
  | false => rwa [eq_of_before h hts]
  | true =>
    cases hsu : before s u with
    | false => rfl
    | true =>
      rw [before_trans hts hsu] at h'
      cases h'

/-! ## The ranking -/

namespace Text

theorem sortBy_eq_insertionSort {α : Type} (le : α → α → Bool) (xs : List α) :
    sortBy le xs = xs.insertionSort fun x y => le x y = true := by
  have hinsert : ∀ (x : α) (ys : List α),
      insertSorted le x ys = ys.orderedInsert (fun x y => le x y = true) x := by
    intro x ys
    induction ys with
    | nil => rfl
    | cons y ys ih => rw [insertSorted, List.orderedInsert_cons, ih]
  induction xs with
  | nil => rfl
  | cons x xs ih =>
    rw [List.insertionSort_cons, ← ih, ← hinsert]
    rfl

/-- The first likeness is no less than the second one. -/
def NoLess (l m : Nat × Nat) : Prop := m.1 * l.2 ≤ l.1 * m.2

theorem NoLess.trans {l m n : Nat × Nat} (hm : 0 < m.2) (h : NoLess l m) (h' : NoLess m n) :
    NoLess l n := by
  refine Nat.le_of_mul_le_mul_right ?_ hm
  calc n.1 * l.2 * m.2 = n.1 * m.2 * l.2 := Nat.mul_right_comm _ _ _
    _ ≤ m.1 * n.2 * l.2 := Nat.mul_le_mul_right _ h'
    _ = m.1 * l.2 * n.2 := Nat.mul_right_comm _ _ _
    _ ≤ l.1 * m.2 * n.2 := Nat.mul_le_mul_right _ h
    _ = l.1 * n.2 * m.2 := Nat.mul_right_comm _ _ _

theorem isCloser_iff {x y : (Nat × Nat) × Text} :
    isCloser x y = true ↔ NoLess x.1 y.1 ∧ (NoLess y.1 x.1 → before x.2 y.2 = false) := by
  simp only [isCloser, NoLess]
  split
  · rename_i heq
    rw [Bool.not_eq_true', heq]
    exact ⟨fun h => ⟨Nat.le_refl _, fun _ => h⟩, fun h => h.2 (Nat.le_refl _)⟩
  · rename_i hne
    rw [decide_eq_true_eq]
    exact ⟨fun hlt => ⟨hlt.le, fun hle => absurd hlt (Nat.not_lt.mpr hle)⟩,
      fun h => lt_of_le_of_ne h.1 (Ne.symm hne)⟩

theorem likeness_pos (candidate word : Text) : 0 < (likeness candidate word).2 := by
  simp only [likeness]
  split
  · exact Nat.one_pos
  · rename_i hsize
    exact Nat.pos_of_ne_zero hsize

/-- The first candidate is ranked no lower than the second one. -/
def Closer (word c d : Text) : Prop :=
  isCloser (likeness c word, c) (likeness d word, d) = true

instance (word : Text) : DecidableRel (Closer word) := fun _ _ => instDecidableEqBool _ _

section

variable {word : Text}

instance : Std.Total (Closer word) where
  total c d := by
    rw [Closer, Closer, isCloser_iff, isCloser_iff]
    rcases Nat.lt_trichotomy ((likeness d word).1 * (likeness c word).2)
      ((likeness c word).1 * (likeness d word).2) with hlt | heq | hlt
    · exact .inl ⟨hlt.le, fun hle => absurd hlt (Nat.not_lt.mpr hle)⟩
    · cases hcd : before c d with
      | false => exact .inl ⟨heq.le, fun _ => rfl⟩
      | true => exact .inr ⟨heq.ge, fun _ => before_asymm hcd⟩
    · exact .inr ⟨hlt.le, fun hle => absurd hlt (Nat.not_lt.mpr hle)⟩

instance : IsTrans Text (Closer word) where
  trans c d e := by
    rw [Closer, Closer, Closer, isCloser_iff, isCloser_iff, isCloser_iff]
    rintro ⟨hcd, hcd'⟩ ⟨hde, hde'⟩
    have hpos := fun c => likeness_pos c word
    refine ⟨hcd.trans (hpos d) hde, fun hec => not_before_trans (hcd' ?_) (hde' ?_)⟩
    · exact hde.trans (hpos e) hec
    · exact hec.trans (hpos c) hcd

instance : Std.Antisymm (Closer word) where
  antisymm c d := by
    rw [Closer, Closer, isCloser_iff, isCloser_iff]
    rintro ⟨hcd, hcd'⟩ ⟨hdc, hdc'⟩
    exact eq_of_before (hcd' hdc) (hdc' hcd)

/-! ## Close matches -/

variable {known order : List Text} {limit : Nat} {e : Text}

/-- The candidates that are close enough. -/
def closeOnes (word : Text) (known : List Text) : List Text :=
  known.filter fun c => isClose (likeness c word)

/-- **The close matches are the close candidates in their ranking**, cut off at the limit. -/
theorem closeMatches_eq (word : Text) (known : List Text) (limit : Nat) :
    closeMatches word known limit = ((closeOnes word known).insertionSort (Closer word)).take limit := by
  rw [closeMatches, sortBy_eq_insertionSort, List.map_take, List.filter_map]
  have hsort := List.map_insertionSort (Closer word) (fun x y => isCloser x y = true)
    (fun c => (likeness c word, c)) (closeOnes word known) fun c _ d _ => Iff.rfl
  rw [closeOnes] at hsort ⊢
  rw [Function.comp_def, ← hsort, List.map_map, Function.comp_def, List.map_id']

/-- **The order of the candidates does not count.** -/
theorem closeMatches_perm (h : order.Perm known) :
    closeMatches word order limit = closeMatches word known limit := by
  rw [closeMatches_eq, closeMatches_eq]
  have hperm : (closeOnes word order).Perm (closeOnes word known) := h.filter _
  have hsorted := List.Perm.eq_of_pairwise' (List.pairwise_insertionSort (Closer word) _)
    (List.pairwise_insertionSort (Closer word) _)
    (((List.perm_insertionSort (Closer word) _).trans hperm).trans
      (List.perm_insertionSort (Closer word) _).symm)
  rw [hsorted]

theorem of_mem_closeMatches (h : e ∈ closeMatches word known limit) :
    e ∈ known ∧ isClose (likeness e word) = true := by
  rw [closeMatches_eq] at h
  have := (List.mem_insertionSort (Closer word)).mp (List.mem_of_mem_take h)
  exact List.mem_filter.mp this

theorem nodup_closeMatches (h : known.Nodup) : (closeMatches word known limit).Nodup := by
  rw [closeMatches_eq]
  refine List.Nodup.sublist (List.take_sublist _ _) ?_
  exact (List.perm_insertionSort (Closer word) _).nodup_iff.mpr (h.filter _)

theorem length_closeMatches_le : (closeMatches word known limit).length ≤ limit := by
  rw [closeMatches_eq]
  exact List.length_take_le _ _

/-- **A close candidate is among the matches, unless as many as asked for are ranked before it.** -/
theorem mem_or_full_of_isClose (limit : Nat) (he : e ∈ known)
    (hclose : isClose (likeness e word) = true) :
    e ∈ closeMatches word known limit ∨
      (closeMatches word known limit).length = limit ∧
        ∀ c ∈ closeMatches word known limit, Closer word c e := by
  rw [closeMatches_eq]
  have hmem : e ∈ (closeOnes word known).insertionSort (Closer word) :=
    (List.mem_insertionSort _).mpr (List.mem_filter.mpr ⟨he, hclose⟩)
  have hsorted := List.pairwise_insertionSort (Closer word) (closeOnes word known)
  generalize (closeOnes word known).insertionSort (Closer word) = ranked at hmem hsorted
  rw [← List.take_append_drop limit ranked] at hmem hsorted
  refine (List.mem_append.mp hmem).imp_right fun hdropped => ⟨?_, fun c hc => ?_⟩
  · have := List.length_pos_of_mem hdropped
    rw [List.length_drop] at this
    rw [List.length_take]
    omega
  · exact (List.pairwise_append.mp hsorted).2.2 c hc e hdropped

end

end Text

/-! ## Suggested entities -/

namespace Validation

variable {name : Text} {known order : List Text}

theorem suggestEntities_perm (name : Text) (h : order.Perm known) (limit : Nat) :
    suggestEntities name order limit = suggestEntities name known limit := by
  rw [suggestEntities, suggestEntities, closeMatches_perm h]
  have hcontains : ∀ e, order.contains e = known.contains e := by
    intro e
    rw [Bool.eq_iff_iff, List.contains_iff_mem, List.contains_iff_mem]
    exact h.mem_iff
  simp only [hcontains]

/-- What is suggested is the singular of the name, if that is another name and known, and the close
matches other than it. -/
theorem suggestEntities_cases (name : Text) (known : List Text) (limit : Nat) :
    (Inflection.singularize name ≠ name ∧ Inflection.singularize name ∈ known ∧
      suggestEntities name known limit = (Inflection.singularize name ::
        (closeMatches name known limit).filter (· != Inflection.singularize name)).take limit) ∨
      ¬ (Inflection.singularize name ≠ name ∧ Inflection.singularize name ∈ known) ∧
        suggestEntities name known limit = closeMatches name known limit := by
  rw [suggestEntities]
  split
  · rename_i h
    rw [Bool.and_eq_true, bne_iff_ne, List.contains_iff_mem] at h
    exact .inl ⟨h.1, h.2, rfl⟩
  · rename_i h
    rw [Bool.and_eq_true, bne_iff_ne, List.contains_iff_mem] at h
    exact .inr ⟨h, List.take_of_length_le length_closeMatches_le⟩

theorem nodup_suggestEntities (h : known.Nodup) (limit : Nat) :
    (suggestEntities name known limit).Nodup := by
  rcases suggestEntities_cases name known limit with ⟨-, -, heq⟩ | ⟨-, heq⟩
  · rw [heq]
    refine List.Nodup.sublist (List.take_sublist _ _) (List.nodup_cons.mpr ⟨?_, ?_⟩)
    · simp
    · exact (nodup_closeMatches h).filter _
  · rw [heq]
    exact nodup_closeMatches h

theorem length_suggestEntities_le (name : Text) (known : List Text) (limit : Nat) :
    (suggestEntities name known limit).length ≤ limit :=
  List.length_take_le _ _

/-- Nothing is suggested that is not known; and but for the singular of the name, nothing that is not
close. -/
theorem of_mem_suggestEntities {limit : Nat} {e : Text} (h : e ∈ suggestEntities name known limit) :
    e ∈ known ∧ (e = Inflection.singularize name ∨ isClose (likeness e name) = true) := by
  rcases suggestEntities_cases name known limit with ⟨-, hknown, heq⟩ | ⟨-, heq⟩
  · rw [heq] at h
    rcases List.mem_cons.mp (List.mem_of_mem_take h) with rfl | h
    · exact ⟨hknown, .inl rfl⟩
    · exact (of_mem_closeMatches (List.mem_filter.mp h).1).imp_right .inr
  · rw [heq] at h
    exact (of_mem_closeMatches h).imp_right .inr

/-- No close match is left out of the suggestions unless there are as many as asked for.  The singular
takes the place of one match at most, so those that were cut off stay cut off. -/
theorem mem_or_full_of_known {limit : Nat} {e : Text} (hknown : known.Nodup) (he : e ∈ known)
    (hclose : isClose (likeness e name) = true) :
    e ∈ suggestEntities name known limit ∨ (suggestEntities name known limit).length = limit := by
  rcases suggestEntities_cases name known limit with ⟨-, -, heq⟩ | ⟨-, heq⟩
  · rw [heq]
    have hnodup : (closeMatches name known limit).Nodup := nodup_closeMatches hknown
    generalize Inflection.singularize name = single
    rw [← hnodup.erase_eq_filter single]
    -- whether or not the limit is reached, the list that is cut off is no shorter than the matches
    have hlength := List.le_length_erase (a := single) (l := closeMatches name known limit)
    have hfull : limit ≤ (single :: (closeMatches name known limit).erase single).length →
        ((single :: (closeMatches name known limit).erase single).take limit).length = limit :=
      fun h => by rw [List.length_take, Nat.min_eq_left h]
    rcases mem_or_full_of_isClose limit he hclose with hfound | ⟨hlimit, -⟩
    · by_cases hshort : (single :: (closeMatches name known limit).erase single).length ≤ limit
      · refine .inl ?_
        rw [List.take_of_length_le hshort, List.mem_cons]
        by_cases hsingle : e = single
        · exact .inl hsingle
        · exact .inr ((List.mem_erase_of_ne hsingle).mpr hfound)
      · exact .inr (hfull (by omega))
    · exact .inr (hfull (by rw [List.length_cons]; omega))
  · rw [heq]
    exact (mem_or_full_of_isClose limit he hclose).imp_right And.left

/-- **Suggestions do not depend on the order of the known entities.**  They are known entities, none
twice and no more than asked for, and the singular of the name is the first if it is another name and
known.  No close match is missing unless the limit is reached. -/
theorem suggestions_of_any_order (name : Text) {known : List Text} {limit : Int}
    (hknown : known.Nodup) (hlimit : 1 ≤ limit) :
    ∃ found, (∀ order : List Text, order.Perm known →
        suggestEntitiesWithin name order limit = .ok found) ∧
      found.Nodup ∧ found.length ≤ limit ∧ (∀ e ∈ found, e ∈ known) ∧
      (Inflection.singularize name ≠ name → Inflection.singularize name ∈ known →
        found.head? = some (Inflection.singularize name)) ∧
      ∀ e ∈ known, isClose (likeness e name) = true → e ∈ found ∨ found.length = limit := by
  obtain ⟨n, rfl⟩ : ∃ n : Nat, limit = n + 1 := ⟨(limit - 1).toNat, by omega⟩
  refine ⟨suggestEntities name known (n + 1), fun order horder => ?_, nodup_suggestEntities hknown _,
    ?_, fun e he => (of_mem_suggestEntities he).1, fun hne hmem => ?_, fun e he hclose => ?_⟩
  · rw [suggestEntitiesWithin, if_neg (by omega), suggestEntities_perm name horder]
    rfl
  · exact_mod_cast length_suggestEntities_le name known (n + 1)
  · rcases suggestEntities_cases name known (n + 1) with ⟨-, -, heq⟩ | ⟨hnot, -⟩
    · rw [heq]
      rfl
    · exact absurd ⟨hne, hmem⟩ hnot
  · exact (mem_or_full_of_known hknown he hclose).imp_right fun h => by exact_mod_cast h

/-- The plural of a known entity, with a second close match that is cut off. -/
theorem suggestions_of_categories :
    let known : List Text := ["Categorisation", "Category", "Tag"]
    known.Nodup ∧ (1 : Int) ≤ 1 ∧ Inflection.singularize "Categories" = "Category" ∧
      closeMatches "Categories" known 2 = ["Category", "Categorisation"] ∧
      ∃ found, (∀ order : List Text, order.Perm known →
          suggestEntitiesWithin "Categories" order 1 = .ok found) ∧
        found.Nodup ∧ found.length ≤ (1 : Int) ∧ (∀ e ∈ found, e ∈ known) ∧
        (Inflection.singularize "Categories" ≠ "Categories" →
          Inflection.singularize "Categories" ∈ known →
            found.head? = some (Inflection.singularize "Categories")) ∧
        ∀ e ∈ known, isClose (likeness e "Categories") = true →
          e ∈ found ∨ found.length = (1 : Int) := by
  intro known
  have hknown : known.Nodup := by decide
  exact ⟨hknown, by decide, by decide +kernel, by decide +kernel,
    suggestions_of_any_order "Categories" hknown (by decide)⟩

/-! ## The issues of a plan -/

theorem withOwn_perm {p : Plan} (h : ∀ e, e ∈ order ↔ e ∈ known) :
    (withOwn p order).Perm (withOwn p known) := by
  have hdistinct := fun es : List Text => distinct_from (es ++ [p.name]) List.nodup_nil
  rw [withOwn, withOwn, distinct, distinct]
  refine (List.perm_ext_iff_of_nodup (hdistinct order).1 (hdistinct known).1).mpr fun e => ?_
  rw [(hdistinct order).2, (hdistinct known).2, List.mem_append, List.mem_append, h]

theorem relationIssues_perm {p : Plan} {r : Relation} (h : order.Perm known) :
    relationIssues p (some order) r = relationIssues p (some known) r := by
  have hcontains : order.contains r.targetName = known.contains r.targetName := by
    rw [Bool.eq_iff_iff, List.contains_iff_mem, List.contains_iff_mem]
    exact h.mem_iff
  have hunknown : ∀ context, unknownTarget order r context = unknownTarget known r context := by
    intro context
    rw [unknownTarget, unknownTarget, suggestEntities_perm _ h]
  simp only [relationIssues, hcontains, hunknown]

/-- **The issues of a plan do not depend on how the known entities are listed**, in whatever order and
however often. -/
theorem validatePlan_of_same_known {p : Plan} (h : ∀ e, e ∈ order ↔ e ∈ known) :
    validatePlan p (some order) = validatePlan p (some known) := by
  have hrelations : relationsIssues p (some order) = relationsIssues p (some known) := by
    rw [relationsIssues, relationsIssues]
    exact List.flatMap_congr fun r _ => relationIssues_perm (withOwn_perm h)
  rw [validatePlan, validatePlan, hrelations]

end Validation

end EntityScaffold
