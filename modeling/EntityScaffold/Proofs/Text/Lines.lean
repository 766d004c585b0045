import EntityScaffold.Text.Dedent
import Mathlib.Data.List.DropRight

/-!
# Lines put together

The operations on lines applied to a text that is given as its lines.

* `lines_ofLines` — cutting a text into the lines that it was put together from.
* `dedent_ofLines` — an indentation put before every line is taken away again.
* `dropEndWhile_of_last`, `trimWhile_of_ends` — nothing is dropped at an end that is to stay.
-/

set_option autoImplicit false

namespace EntityScaffold.Text

/-! ## Putting lines together -/

theorem ofLines_singleton (l : Text) : ofLines [l] = l := rfl

theorem ofLines_cons {l : Text} {ls : List Text} (h : ls ≠ []) :
    ofLines (l :: ls) = l ++ '\n' :: ofLines ls := by
  cases ls with
  | nil => exact absurd rfl h
  | cons k ks => simp [ofLines, joinWith]

theorem ofLines_append {ls ks : List Text} (hl : ls ≠ []) (hk : ks ≠ []) :
    ofLines (ls ++ ks) = ofLines ls ++ '\n' :: ofLines ks := by
  induction ls with
  | nil => exact absurd rfl hl
  | cons l ls ih =>
    cases ls with
    | nil => rw [List.singleton_append, ofLines_cons hk, ofLines_singleton]
    | cons m ls =>
      rw [List.cons_append, ofLines_cons (by simp), ih (by simp),
        ofLines_cons (l := l) (by simp), List.append_assoc, List.cons_append]

/-- A text that ends with a line feed has an empty last line. -/
theorem ofLines_append_empty {ls : List Text} (h : ls ≠ []) :
    ofLines (ls ++ [[]]) = ofLines ls ++ ['\n'] := by
  rw [ofLines_append h (by simp), ofLines_singleton]

/-- The last line of one text and the first line of another become one line. -/
theorem ofLines_glue (ls : List Text) (l k : Text) (ks : List Text) :
    ofLines (ls ++ [l]) ++ ofLines (k :: ks) = ofLines (ls ++ (l ++ k) :: ks) := by
  have hone : ∀ l : Text, l ++ ofLines (k :: ks) = ofLines ((l ++ k) :: ks) := by
    intro l
    cases ks with
    | nil => rfl
    | cons m ms =>
      rw [ofLines_cons (l := k) (by simp), ofLines_cons (l := l ++ k) (by simp), List.append_assoc]
  induction ls with
  | nil => exact hone l
  | cons m ls ih =>
    rw [List.cons_append, List.cons_append, ofLines_cons (by simp : ls ++ [l] ≠ []),
      ofLines_cons (by simp : ls ++ (l ++ k) :: ks ≠ []), ← ih, List.append_assoc,
      List.cons_append]

/-- What holds of the empty text and the line feed, and of texts put together, holds of lines put
together. -/
theorem ofLines_induction {P : Text → Prop} (hnil : P []) (hfeed : P ['\n'])
    (happend : ∀ s t, P s → P t → P (s ++ t)) {ls : List Text} (h : ∀ l ∈ ls, P l) :
    P (ofLines ls) := by
  induction ls with
  | nil => exact hnil
  | cons l ls ih =>
    have hl : P l := h l (by simp)
    cases ls with
    | nil => exact hl
    | cons k ks =>
      rw [ofLines_cons (by simp)]
      have hrest := ih fun m hm => h m (List.mem_cons_of_mem _ hm)
      exact happend _ _ hl (happend ['\n'] _ hfeed hrest)

theorem splitAt_of_notMem {s : Char} {t : Text} (h : s ∉ t) : splitAt s t = [t] := by
  induction t with
  | nil => rfl
  | cons c t ih =>
    simp only [List.mem_cons, not_or] at h
    simp [splitAt, Ne.symm h.1, ih h.2]

theorem splitAt_append {s : Char} {t u : Text} (h : s ∉ t) :
    splitAt s (t ++ s :: u) = t :: splitAt s u := by
  induction t with
  | nil => simp [splitAt]
  | cons c t ih =>
    simp only [List.mem_cons, not_or] at h
    simp [splitAt, Ne.symm h.1, ih h.2]

/-- A line feed parts the lines of what stands before it from those of what stands behind. -/
theorem lines_append (s t : Text) : lines (s ++ '\n' :: t) = lines s ++ lines t := by
  induction s with
  | nil => rfl
  | cons c s ih =>
    simp only [lines] at ih ⊢
    rw [List.cons_append, splitAt, splitAt, ih]
    split
    · rfl
    · cases hs : splitAt '\n' s with
      | nil => exact absurd hs (splitAt_ne_nil _ _)
      | cons piece more => rfl

theorem notMem_of_mem_lines {t l : Text} (h : l ∈ lines t) : '\n' ∉ l := by
  induction t generalizing l with
  | nil =>
    rw [List.mem_singleton.mp h]
    exact List.not_mem_nil
  | cons c t ih =>
    rw [lines, splitAt] at h
    split at h
    · rcases List.mem_cons.mp h with rfl | h
      · exact List.not_mem_nil
      · exact ih h
    · rename_i hc
      cases hs : splitAt '\n' t with
      | nil => exact absurd hs (splitAt_ne_nil _ _)
      | cons piece more =>
        rw [hs] at h
        rcases List.mem_cons.mp h with rfl | h
        · have hpiece : '\n' ∉ piece := ih (by rw [lines, hs]; exact List.mem_cons_self)
          simp [hpiece, Ne.symm hc]
        · exact ih (by rw [lines, hs]; exact List.mem_cons_of_mem piece h)

theorem lines_ofLines {ls : List Text} (hne : ls ≠ []) (h : ∀ l ∈ ls, '\n' ∉ l) :
    lines (ofLines ls) = ls := by
  induction ls with
  | nil => exact absurd rfl hne
  | cons l ls ih =>
    cases ls with
    | nil => exact splitAt_of_notMem (h l (by simp))
    | cons k ks =>
      rw [ofLines_cons (by simp), lines, splitAt_append (h l (by simp))]
      exact congrArg (l :: ·) (ih (by simp) fun m hm => h m (List.mem_cons_of_mem _ hm))

/-! ## Ends that stay -/

theorem getLast?_append_of_ne_nil (s : Text) {t : Text} (h : t ≠ []) :
    (s ++ t).getLast? = t.getLast? := by
  rw [List.getLast?_append]
  cases ht : t.getLast? with
  | none => exact absurd (List.getLast?_eq_none_iff.mp ht) h
  | some c => rfl

theorem dropEndWhile_of_last {p : Char → Bool} {t : Text}
    (h : ∀ c ∈ t.getLast?, p c = false) : dropEndWhile p t = t := by
  have hrev : t.reverse.dropWhile p = t.reverse := by
    cases hr : t.reverse with
    | nil => rfl
    | cons c r =>
      have hc : p c = false := h c (by simp [List.getLast?_eq_head?_reverse, hr])
      simp [hc]
  rw [dropEndWhile, hrev, List.reverse_reverse]

/-- What is left begins with one that is not dropped. -/
theorem head?_dropWhile {α : Type} (p : α → Bool) (xs : List α) :
    ∀ x ∈ (xs.dropWhile p).head?, p x = false := by
  intro x hx
  have := List.head?_dropWhile_not p xs
  rw [Option.mem_def.mp hx] at this
  simpa using this

/-- A beginning of what satisfies `p`, up to the first one that does not. -/
theorem exists_takeWhile {α : Type} (p : α → Bool) (xs : List α) :
    ∃ front rest, xs = front ++ rest ∧ (∀ x ∈ front, p x = true) ∧ ∀ x ∈ rest.head?, p x = false :=
  ⟨xs.takeWhile p, xs.dropWhile p, List.takeWhile_append_dropWhile.symm,
    fun _ hx => List.mem_takeWhile_imp hx, head?_dropWhile p xs⟩

theorem dropWhile_of_head {p : Char → Bool} {t : Text} (h : ∀ c ∈ t.head?, p c = false) :
    t.dropWhile p = t := by
  cases t with
  | nil => rfl
  | cons c t => simp [h c (by simp)]

theorem trimWhile_of_ends {p : Char → Bool} {t : Text} (hfirst : ∀ c ∈ t.head?, p c = false)
    (hlast : ∀ c ∈ t.getLast?, p c = false) : trimWhile p t = t := by
  rw [trimWhile, dropWhile_of_head hfirst, dropEndWhile_of_last hlast]

/-- Nothing but the blanks around a text is stripped. -/
theorem strip_append {i t : Text} (hi : ∀ c ∈ i, isBlank c = true)
    (hfirst : ∀ c ∈ t.head?, isBlank c = false) (hlast : ∀ c ∈ t.getLast?, isBlank c = false) :
    strip (i ++ t) = t := by
  rw [strip, trimWhile, List.dropWhile_append_of_pos hi, dropWhile_of_head hfirst,
    dropEndWhile_of_last hlast]

/-- What is dropped at the end. -/
theorem exists_dropEndWhile (p : Char → Bool) (t : Text) :
    ∃ u, t = dropEndWhile p t ++ u ∧ ∀ c ∈ u, p c = true :=
  ⟨t.rtakeWhile p, List.rdropWhile_append_rtakeWhile.symm, fun _ hc => List.mem_rtakeWhile_imp hc⟩

theorem getLast?_dropEndWhile (p : Char → Bool) (t : Text) :
    ∀ c ∈ (dropEndWhile p t).getLast?, p c = false := by
  intro c hc
  rw [dropEndWhile, List.getLast?_reverse] at hc
  exact head?_dropWhile p t.reverse c hc

theorem head?_trimWhile (p : Char → Bool) (t : Text) :
    ∀ c ∈ (trimWhile p t).head?, p c = false := by
  intro c hc
  obtain ⟨u, hsplit, -⟩ := exists_dropEndWhile p (t.dropWhile p)
  refine head?_dropWhile p t c ?_
  rw [hsplit, List.head?_append]
  exact congrArg (Option.or · _) hc

theorem dropEndWhile_append_of_all {p : Char → Bool} {t u : Text} (hu : ∀ c ∈ u, p c = true) :
    dropEndWhile p (t ++ u) = dropEndWhile p t := by
  have : ∀ c ∈ u.reverse, p c = true := fun c hc => hu c (List.mem_reverse.mp hc)
  rw [dropEndWhile, dropEndWhile, List.reverse_append, List.dropWhile_append_of_pos this]

/-! ## Indentation -/

/-- A line that begins and ends with something to see. -/
structure Flush (l : Text) : Prop where
  first : ∀ c ∈ l.head?, isBlank c = false
  last : ∀ c ∈ l.getLast?, isBlank c = false
  oneLine : '\n' ∉ l
  content : l ≠ []

/-- A line that ends with something to see; it may be indented. -/
structure Inked (l : Text) : Prop where
  last : ∀ c ∈ l.getLast?, isBlank c = false
  oneLine : '\n' ∉ l
  content : l ≠ []

theorem Flush.inked {l : Text} (h : Flush l) : Inked l := ⟨h.last, h.oneLine, h.content⟩

theorem Inked.not_all {l : Text} (h : Inked l) {p : Char → Bool}
    (hp : ∀ c, p c = true → isBlank c = true) : l.all p = false := by
  obtain ⟨c, hc⟩ : ∃ c, l.getLast? = some c := by
    cases hl : l.getLast? with
    | none => exact absurd (List.getLast?_eq_none_iff.mp hl) h.content
    | some c => exact ⟨c, rfl⟩
  rw [List.all_eq_false]
  refine ⟨c, List.mem_of_getLast? hc, fun hpc => ?_⟩
  have := h.last c hc
  rw [hp c hpc] at this
  cases this

theorem Inked.indented {l : Text} (h : Inked l) {i : Text} (hi : '\n' ∉ i) :
    Inked (i ++ l) where
  last := by
    intro c hc
    rw [getLast?_append_of_ne_nil i h.content] at hc
    exact h.last c hc
  oneLine := by simp [hi, h.oneLine]
  content := by simp [h.content]

/-- A text of lines with something to see is not blank where it ends. -/
theorem ofLines_ne_nil {ls : List Text} (hne : ls ≠ []) (h : ∀ l ∈ ls, Inked l) :
    ofLines ls ≠ [] := by
  cases ls with
  | nil => exact absurd rfl hne
  | cons l ls =>
    cases ls with
    | nil => exact (h l (by simp)).content
    | cons m ms => rw [ofLines_cons (by simp)]; simp

theorem last_ofLines {ls : List Text} (hne : ls ≠ []) (h : ∀ l ∈ ls, Inked l) :
    ∀ c ∈ (ofLines ls).getLast?, isBlank c = false := by
  induction ls with
  | nil => exact absurd rfl hne
  | cons l ls ih =>
    cases ls with
    | nil => exact (h l (by simp)).last
    | cons k ks =>
      have hk := ih (by simp) fun m hm => h m (List.mem_cons_of_mem _ hm)
      rw [ofLines_cons (by simp)]
      intro c hc
      refine hk c ?_
      have hcontent : ofLines (k :: ks) ≠ [] :=
        ofLines_ne_nil (by simp) fun m hm => h m (List.mem_cons_of_mem _ hm)
      have hcons : '\n' :: ofLines (k :: ks) = ['\n'] ++ ofLines (k :: ks) := rfl
      rwa [getLast?_append_of_ne_nil _ (by simp), hcons,
        getLast?_append_of_ne_nil _ hcontent] at hc

theorem notMem_of_spaceTabs {i : Text} (hi : ∀ c ∈ i, isSpaceTab c = true) : '\n' ∉ i := by
  intro h
  have := hi _ h
  revert this
  decide

theorem leading_append {i l : Text} (hi : ∀ c ∈ i, isSpaceTab c = true) :
    leading (i ++ l) = i ++ leading l := by
  rw [leading, leading, List.takeWhile_append_of_pos hi]

theorem leading_of_flush {l : Text} (h : Flush l) : leading l = [] := by
  cases l with
  | nil => rfl
  | cons c l =>
    have hc : isSpaceTab c = false := by
      cases hs : isSpaceTab c with
      | false => rfl
      | true => rw [← h.first c (by simp), isBlank_of_isSpaceTab hs]
    simp [leading, hc]

theorem commonStart_append (i s : Text) : commonStart i (i ++ s) = i := by
  induction i with
  | nil => cases s <;> rfl
  | cons c i ih => simp [commonStart, ih]

/-- The margin of lines behind an indentation is that indentation, if the first line has none of
its own. -/
theorem margin_indented {i l : Text} {ls : List Text} (hi : ∀ c ∈ i, isSpaceTab c = true)
    (hl : Flush l) (hls : ∀ k ∈ ls, Inked k) : margin ((l :: ls).map (i ++ ·)) = i := by
  have hnl : '\n' ∉ i := notMem_of_spaceTabs hi
  have hkeep : ((l :: ls).map (i ++ ·)).filter (!·.all isSpaceTab) = (l :: ls).map (i ++ ·) := by
    rw [List.filter_eq_self]
    intro k hk
    obtain ⟨m, hm, rfl⟩ := List.mem_map.mp hk
    have hm : Inked m := by
      rcases List.mem_cons.mp hm with rfl | hm
      · exact hl.inked
      · exact hls m hm
    simp [(hm.indented hnl).not_all (p := isSpaceTab) fun c => isBlank_of_isSpaceTab]
  have hfold : ∀ ks : List Text,
      (ks.map (i ++ ·)).foldl (fun m l => commonStart m (leading l)) i = i := by
    intro ks
    induction ks with
    | nil => rfl
    | cons k ks ih => rw [List.map_cons, List.foldl_cons, leading_append hi, commonStart_append, ih]
  rw [margin, hkeep, List.map_cons]
  simp only [leading_append hi, leading_of_flush hl, List.append_nil]
  exact hfold ls

/-- **An indentation put before every line is taken away again.** -/
theorem dedent_ofLines {i l : Text} {ls : List Text} (hi : ∀ c ∈ i, isSpaceTab c = true)
    (hl : Flush l) (hls : ∀ k ∈ ls, Inked k) :
    dedent (ofLines ((l :: ls).map (i ++ ·))) = ofLines (l :: ls) := by
  have hnl : '\n' ∉ i := notMem_of_spaceTabs hi
  have hink : ∀ k ∈ l :: ls, Inked k := by
    intro k hk
    rcases List.mem_cons.mp hk with rfl | hk
    · exact hl.inked
    · exact hls k hk
  have hlines : lines (ofLines ((l :: ls).map (i ++ ·))) = (l :: ls).map (i ++ ·) := by
    refine lines_ofLines (by simp) fun k hk => ?_
    obtain ⟨m, hm, rfl⟩ := List.mem_map.mp hk
    exact ((hink m hm).indented hnl).oneLine
  have hemptied : ((l :: ls).map (i ++ ·)).map emptied = (l :: ls).map (i ++ ·) := by
    rw [List.map_map]
    refine List.map_congr_left fun k hk => ?_
    have := ((hink k hk).indented hnl).not_all (p := isSpaceTab) fun c => isBlank_of_isSpaceTab
    simp [emptied, this]
  rw [dedent]
  simp only [hlines, hemptied, margin_indented hi hl hls]
  rw [List.map_map]
  congr 1
  rw [List.map_congr_left (g := id), List.map_id]
  intro k _
  simp [withoutMargin, after?_append]

end EntityScaffold.Text
