import EntityScaffold.Proofs.Text.Lines

/-!
# Texts whose lines are shifted

Two texts are shifted against each other if they differ in the spaces and tabs at the beginnings of
their lines only.  So is a text against the same text behind an indentation, and against the one
moved to the left.

* `Shifted` — the relation; it is symmetric, so that what is shown of it holds in either direction.
* `Shifted.exists_append`, `Shifted.exists_solid` — what begins with a piece of one line, or holds a
  character that is not blank, is shifted piece by piece.
* `hang`, `shifted_hang` — an indentation in front of every line but the empty ones.
* `ofLines_indentLines` — the lines behind an indentation, put together.
* `dedent_indentLines` — an indentation put before the lines of any text does not count when it is
  moved to the left.
* `length_dedent_le` — moving a text to the left does not make it longer.
-/

set_option autoImplicit false

namespace EntityScaffold.Text

/-- The texts differ in the spaces and tabs at the beginnings of their lines only; `start` tells
whether they stand at the beginning of a line. -/
inductive Shifted : Bool → Text → Text → Prop where
  | nil (start : Bool) : Shifted start [] []
  | char {start : Bool} (c : Char) {s t : Text} (h : Shifted (c == '\n') s t) :
      Shifted start (c :: s) (c :: t)
  | lead {x y s t : Text} (hx : ∀ c ∈ x, isSpaceTab c = true) (hy : ∀ c ∈ y, isSpaceTab c = true)
      (h : Shifted false s t) : Shifted true (x ++ s) (y ++ t)

namespace Shifted

variable {s s' t t' u : Text} {start : Bool} {c : Char}

theorem refl (start : Bool) (t : Text) : Shifted start t t := by
  induction t generalizing start with
  | nil => exact .nil start
  | cons c t ih => exact .char c (ih _)

theorem symm (h : Shifted start s t) : Shifted start t s := by
  induction h with
  | nil => exact .nil _
  | char c _ ih => exact .char c ih
  | lead hx hy _ ih => exact .lead hy hx ih

theorem weaken (h : Shifted false s t) : Shifted start s t := by
  cases start with
  | false => exact h
  | true => exact .lead (x := []) (y := []) (by simp) (by simp) h

theorem append (h : Shifted start s t) (h' : Shifted false s' t') :
    Shifted start (s ++ s') (t ++ t') := by
  induction h with
  | nil => exact h'.weaken
  | char c _ ih => exact .char c ih
  | lead hx hy _ ih =>
    rw [List.append_assoc, List.append_assoc]
    exact .lead hx hy ih

/-- Behind a line feed, the texts may be shifted. -/
theorem append_line (l : Text) (h : Shifted true s t) :
    Shifted start (l ++ '\n' :: s) (l ++ '\n' :: t) := by
  induction l generalizing start with
  | nil => exact .char '\n' h
  | cons c l ih => exact .char c ih

theorem exists_cons (h : Shifted false (c :: s) t) :
    ∃ t', t = c :: t' ∧ Shifted (c == '\n') s t' := by
  cases h with
  | char _ h => exact ⟨_, rfl, h⟩

/-- The spaces and tabs in front do not matter, the rest begins within a line. -/
theorem exists_lead (h : Shifted true s t) : ∃ x y s' t', s = x ++ s' ∧ t = y ++ t' ∧
    (∀ c ∈ x, isSpaceTab c = true) ∧ (∀ c ∈ y, isSpaceTab c = true) ∧ Shifted false s' t' := by
  have hnone : ∀ d ∈ ([] : Text), isSpaceTab d = true := by simp
  cases h with
  | nil => exact ⟨[], [], [], [], rfl, rfl, hnone, hnone, .nil false⟩
  | char c h => exact ⟨[], [], _, _, rfl, rfl, hnone, hnone, .char c h⟩
  | lead hx hy h => exact ⟨_, _, _, _, rfl, rfl, hx, hy, h⟩

/-- A piece of one line stays, and so does what begins with it. -/
theorem exists_append {p : Text} (h : Shifted false (p ++ s) t) (hp : '\n' ∉ p) :
    ∃ t', t = p ++ t' ∧ Shifted false s t' := by
  induction p generalizing t with
  | nil => exact ⟨t, rfl, h⟩
  | cons c p ih =>
    simp only [List.mem_cons, not_or] at hp
    obtain ⟨t', rfl, ht'⟩ := h.exists_cons
    rw [beq_false_of_ne (Ne.symm hp.1)] at ht'
    obtain ⟨t'', rfl, ht''⟩ := ih ht' hp.2
    exact ⟨t'', rfl, ht''⟩

/-- A text of one line stays. -/
theorem eq_of_notMem (h : Shifted false s t) (hs : '\n' ∉ s) : t = s := by
  rw [← List.append_nil s] at h
  obtain ⟨t', rfl, ht'⟩ := h.exists_append hs
  cases ht'
  exact List.append_nil s

theorem head?_eq (h : Shifted false s t) : s.head? = t.head? := by
  cases h <;> rfl

/-- The texts are shifted up to a character that is not blank, and behind it. -/
theorem exists_solid {d : Char} (h : Shifted start (s ++ d :: t) u) (hd : isBlank d = false) :
    ∃ s' t', u = s' ++ d :: t' ∧ Shifted start s s' ∧ Shifted false t t' := by
  have hfeed : (d == '\n') = false := by
    rw [beq_eq_false_iff_ne]
    rintro rfl
    cases hd
  generalize hw : s ++ d :: t = w at h
  induction h generalizing s with
  | nil => simp at hw
  | @char start c v v' h ih =>
    cases s with
    | nil =>
      obtain ⟨rfl, rfl⟩ := List.cons.inj hw
      rw [hfeed] at h
      exact ⟨[], v', rfl, .nil _, h⟩
    | cons e s =>
      obtain ⟨rfl, hmore⟩ := List.cons.inj hw
      obtain ⟨s', t', rfl, hs, ht⟩ := ih hmore
      exact ⟨e :: s', t', rfl, .char e hs, ht⟩
  | @lead x y v v' hx hy _ ih =>
    -- the character stands behind the spaces and tabs
    obtain ⟨r, rfl, hr⟩ : ∃ r, s = x ++ r ∧ r ++ d :: t = v := by
      rcases List.append_eq_append_iff.mp hw with ⟨r, rfl, hr⟩ | ⟨r, rfl, hr⟩
      · cases r with
        | nil => exact ⟨[], by simp, by simpa using hr⟩
        | cons e r =>
          obtain ⟨rfl, -⟩ := List.cons.inj hr
          rw [isBlank_of_isSpaceTab (hx d (by simp))] at hd
          cases hd
      · exact ⟨r, rfl, hr.symm⟩
    obtain ⟨s', t', rfl, hs, ht⟩ := ih hr
    exact ⟨y ++ s', t', by simp, .lead hx hy hs, ht⟩

end Shifted

/-- Texts of lines that are shifted one by one. -/
theorem shifted_ofLines {f : Text → Text} {ls : List Text}
    (h : ∀ l ∈ ls, ∃ x y r, l = x ++ r ∧ f l = y ++ r ∧ (∀ c ∈ x, isSpaceTab c = true) ∧
      ∀ c ∈ y, isSpaceTab c = true) : Shifted true (ofLines ls) (ofLines (ls.map f)) := by
  induction ls with
  | nil => exact .nil true
  | cons l ls ih =>
    obtain ⟨x, y, r, hl, hf, hx, hy⟩ := h l (by simp)
    cases ls with
    | nil =>
      rw [List.map_cons, List.map_nil, ofLines_singleton, ofLines_singleton, hf, hl]
      exact .lead hx hy (.refl false r)
    | cons k ks =>
      have hne : k :: ks ≠ [] := by simp
      have hne' : (k :: ks).map f ≠ [] := by simp
      rw [List.map_cons, ofLines_cons hne, ofLines_cons hne', hf, hl, List.append_assoc,
        List.append_assoc]
      exact .lead hx hy ((ih fun m hm => h m (List.mem_cons_of_mem l hm)).append_line r)

/-! ## Behind an indentation -/

/-- The text with the indentation in front of each character that begins a line and is no line feed;
`start` tells whether the text itself stands at the beginning of a line. -/
def hang (i : Text) : Bool → Text → Text
  | _, [] => []
  | start, c :: t => (if start && c != '\n' then i else []) ++ c :: hang i (c == '\n') t

section

variable {i s t w : Text} {start : Bool}

@[simp] theorem hang_nil (i : Text) (start : Bool) : hang i start [] = [] := by
  cases start <;> rfl

theorem hang_cons (i : Text) (c : Char) (t : Text) :
    hang i false (c :: t) = c :: hang i (c == '\n') t := rfl

theorem hang_cons_of_ne {c : Char} (hc : c ≠ '\n') (t : Text) :
    hang i false (c :: t) = c :: hang i false t := by
  rw [hang_cons, beq_false_of_ne hc]

/-- At the beginning of a line that is not empty the indentation comes first. -/
theorem hang_start {c : Char} (hc : c ≠ '\n') (t : Text) :
    hang i true (c :: t) = i ++ hang i false (c :: t) := by
  simp [hang, hc]

theorem hang_lineFeed (i : Text) (start : Bool) (t : Text) :
    hang i start ('\n' :: t) = '\n' :: hang i true t := by
  cases start <;> rfl

theorem hang_append_of_notMem (hs : '\n' ∉ s) (t : Text) :
    hang i false (s ++ t) = s ++ hang i false t := by
  induction s with
  | nil => rfl
  | cons c s ih =>
    simp only [List.mem_cons, not_or] at hs
    rw [List.cons_append, hang_cons_of_ne (Ne.symm hs.1), ih hs.2, List.cons_append]

/-- Behind a character it is known whether a line begins. -/
theorem hang_append_cons (i : Text) (start : Bool) (s : Text) (d : Char) (t : Text) :
    hang i start (s ++ d :: t) = hang i start (s ++ [d]) ++ hang i (d == '\n') t := by
  induction s generalizing start with
  | nil => simp [hang]
  | cons c s ih => simp [hang, ih]

/-- **A text and the same text behind an indentation are shifted.** -/
theorem shifted_hang (hi : ∀ c ∈ i, isSpaceTab c = true) (start : Bool) (t : Text) :
    Shifted start t (hang i start t) := by
  induction t generalizing start with
  | nil => exact .nil start
  | cons c t ih =>
    have hlead : ∀ d ∈ if start && c != '\n' then i else [], isSpaceTab d = true := by
      split
      · exact hi
      · simp
    cases start with
    | false => exact .char c (ih _)
    | true => exact .lead (x := []) (by simp) hlead (.char c (ih _))

/-! ## Lines behind an indentation -/

theorem hang_line (hs : '\n' ∉ s) : hang i true s = if s = [] then [] else i ++ s := by
  cases s with
  | nil => simp
  | cons c s =>
    have hc : c ≠ '\n' := fun hc => hs (by simp [hc])
    have := hang_append_of_notMem (i := i) hs []
    rw [List.append_nil, hang_nil, List.append_nil] at this
    rw [hang_start hc, this]
    simp

theorem hang_line_append (hs : '\n' ∉ s) (t : Text) :
    hang i true (s ++ '\n' :: t) = (if s = [] then [] else i ++ s) ++ '\n' :: hang i true t := by
  cases s with
  | nil => exact hang_lineFeed i true t
  | cons c s =>
    have hc : c ≠ '\n' := fun hc => hs (by simp [hc])
    rw [List.cons_append, hang_start hc, ← List.cons_append, hang_append_of_notMem hs,
      hang_lineFeed]
    simp

/-- Lines that are put behind an indentation: none of them is blank without being empty. -/
def LinesInked (t : Text) : Prop := ∀ l ∈ lines t, l = [] ∨ isBlankText l = false

instance (t : Text) : Decidable (LinesInked t) :=
  inferInstanceAs (Decidable (∀ l ∈ lines t, l = [] ∨ isBlankText l = false))

/-- An empty line stays empty, any other stands behind the indentation. -/
theorem indentLines_eq (h : LinesInked w) :
    indentLines i w = (lines w).map fun l => if l = [] then [] else i ++ l := by
  refine List.map_congr_left fun l hl => ?_
  rcases h l hl with rfl | hink
  · rfl
  · have hne : l ≠ [] := by
      rintro rfl
      cases hink
    simp [hink, hne]

/-- **The lines of a text behind an indentation, put together.** -/
theorem ofLines_indentLines (h : LinesInked w) : ofLines (indentLines i w) = hang i true w := by
  have hlines : ∀ ls : List Text, ls ≠ [] → (∀ l ∈ ls, '\n' ∉ l) →
      ofLines (ls.map fun l => if l = [] then [] else i ++ l) = hang i true (ofLines ls) := by
    intro ls hne hls
    induction ls with
    | nil => exact absurd rfl hne
    | cons l ls ih =>
      cases ls with
      | nil => exact (hang_line (hls l (by simp))).symm
      | cons k ks =>
        rw [List.map_cons, ofLines_cons (by simp), ofLines_cons (by simp),
          hang_line_append (hls l (by simp)), ih (by simp) fun m hm => hls m (by simp [hm])]
  rw [indentLines_eq h, hlines (lines w) (splitAt_ne_nil _ _) fun l hl => notMem_of_mem_lines hl,
    ofLines_lines]

/-! ## Moving to the left -/

theorem commonStart_append_append (i s t : Text) :
    commonStart (i ++ s) (i ++ t) = i ++ commonStart s t := by
  induction i with
  | nil => rfl
  | cons c i ih => simp [commonStart, ih]

theorem commonStart_prefix (s t : Text) : commonStart s t <+: s ∧ commonStart s t <+: t := by
  induction s generalizing t with
  | nil => cases t <;> simp [commonStart]
  | cons c s ih =>
    cases t with
    | nil => simp [commonStart]
    | cons d t =>
      rw [commonStart]
      split
      · rename_i hcd
        subst hcd
        exact ⟨(List.prefix_cons_inj c).mpr (ih t).1, (List.prefix_cons_inj c).mpr (ih t).2⟩
      · exact ⟨List.nil_prefix, List.nil_prefix⟩

/-- The margin is what all lines with content begin with. -/
theorem margin_prefix {ls : List Text} {l : Text} (hl : l ∈ ls) (hink : l.all isSpaceTab = false) :
    margin ls <+: l := by
  have hfold : ∀ (more : List Text) (m : Text),
      more.foldl (fun m l => commonStart m (leading l)) m <+: m ∧
        ∀ l ∈ more, more.foldl (fun m l => commonStart m (leading l)) m <+: leading l := by
    intro more
    induction more with
    | nil => exact fun m => ⟨List.prefix_rfl, by simp⟩
    | cons k more ih =>
      intro m
      obtain ⟨hm, hmore⟩ := ih (commonStart m (leading k))
      obtain ⟨hleft, hright⟩ := commonStart_prefix m (leading k)
      refine ⟨hm.trans hleft, fun l hl => ?_⟩
      rcases List.mem_cons.mp hl with rfl | hl
      · exact hm.trans hright
      · exact hmore l hl
  have hmem : l ∈ ls.filter (!·.all isSpaceTab) := List.mem_filter.mpr ⟨hl, by simp [hink]⟩
  rw [margin]
  cases hls : ls.filter (!·.all isSpaceTab) with
  | nil =>
    rw [hls] at hmem
    cases hmem
  | cons k more =>
    rw [hls] at hmem
    obtain ⟨hk, hmore⟩ := hfold more (leading k)
    rcases List.mem_cons.mp hmem with rfl | hmem
    · exact hk.trans (List.takeWhile_prefix _)
    · exact (hmore l hmem).trans (List.takeWhile_prefix _)

/-- The margin of lines behind an indentation. -/
theorem margin_hanging (hi : ∀ c ∈ i, isSpaceTab c = true) {ls : List Text}
    (hls : ∀ l ∈ ls, l = [] ∨ l.all isSpaceTab = false) (hink : ∃ l ∈ ls, l ≠ []) :
    margin (ls.map fun l => if l = [] then [] else i ++ l) = i ++ margin ls := by
  have hfilter : (ls.map fun l => if l = [] then [] else i ++ l).filter (!·.all isSpaceTab) =
      (ls.filter (!·.all isSpaceTab)).map (i ++ ·) := by
    rw [List.filter_map]
    have hkeep : ls.filter ((!·.all isSpaceTab) ∘ fun l => if l = [] then [] else i ++ l) =
        ls.filter (!·.all isSpaceTab) := by
      refine List.filter_congr fun l hl => ?_
      rcases hls l hl with rfl | hl
      · rfl
      · have hne : l ≠ [] := by
          rintro rfl
          cases hl
        simp [hl, hne, List.all_append]
    rw [hkeep]
    refine List.map_congr_left fun l hl => if_neg ?_
    rintro rfl
    simp at hl
  have hfold : ∀ (more : List Text) (m : Text),
      (more.map (i ++ ·)).foldl (fun m l => commonStart m (leading l)) (i ++ m) =
        i ++ more.foldl (fun m l => commonStart m (leading l)) m := by
    intro more
    induction more with
    | nil => exact fun _ => rfl
    | cons l more ih =>
      intro m
      rw [List.map_cons, List.foldl_cons, leading_append hi, commonStart_append_append, ih,
        List.foldl_cons]
  rw [margin, margin, hfilter]
  cases hk : ls.filter (!·.all isSpaceTab) with
  | nil =>
    obtain ⟨l, hl, hne⟩ := hink
    have hmem : l ∈ ls.filter (!·.all isSpaceTab) :=
      List.mem_filter.mpr ⟨hl, by simp [(hls l hl).resolve_left hne]⟩
    rw [hk] at hmem
    cases hmem
  | cons l more =>
    simp only [List.map_cons, leading_append hi]
    exact hfold more (leading l)

/-- **An indentation put before the lines of a text does not count when it is moved to the left.**
-/
theorem dedent_indentLines (hi : ∀ c ∈ i, isSpaceTab c = true) (h : LinesInked w) :
    dedent (ofLines (indentLines i w)) = dedent w := by
  have hnl : '\n' ∉ i := notMem_of_spaceTabs hi
  have hls : ∀ l ∈ lines w, l = [] ∨ l.all isSpaceTab = false := by
    intro l hl
    refine (h l hl).imp id fun hink => ?_
    rw [Bool.eq_false_iff] at hink ⊢
    exact fun hall => hink (List.all_eq_true.mpr fun c hc =>
      isBlank_of_isSpaceTab (List.all_eq_true.mp hall c hc))
  have hemptied : (lines w).map emptied = lines w := by
    refine (List.map_congr_left fun l hl => ?_).trans (List.map_id _)
    rcases hls l hl with rfl | hink
    · rfl
    · simp [emptied, hink]
  have hindented : lines (ofLines (indentLines i w)) =
      (lines w).map fun l => if l = [] then [] else i ++ l := by
    rw [indentLines_eq h]
    have hne : lines w ≠ [] := splitAt_ne_nil _ _
    refine lines_ofLines (by simpa using hne) fun l hl => ?_
    obtain ⟨k, hk, rfl⟩ := List.mem_map.mp hl
    have hkl := notMem_of_mem_lines hk
    split <;> simp [hnl, hkl]
  have hemptied' : ((lines w).map fun l => if l = [] then [] else i ++ l).map emptied =
      (lines w).map fun l => if l = [] then [] else i ++ l := by
    rw [List.map_map]
    refine List.map_congr_left fun l hl => ?_
    rcases hls l hl with rfl | hink
    · rfl
    · have hne : l ≠ [] := by
        rintro rfl
        cases hink
      simp [emptied, hne, hink]
  simp only [dedent, hindented, hemptied, hemptied', List.map_map]
  congr 1
  refine List.map_congr_left fun l hl => ?_
  rw [Function.comp_apply]
  by_cases hne : l = []
  · subst hne
    have hempty : ∀ m : Text, withoutMargin m [] = [] := by
      intro m
      cases m <;> rfl
    simp [hempty]
  · have hink := (hls l hl).resolve_left hne
    obtain ⟨r, hr⟩ := margin_prefix hl hink
    rw [if_neg hne, margin_hanging hi hls ⟨l, hl, hne⟩, withoutMargin, withoutMargin]
    rw [← hr, after?_append, ← List.append_assoc, after?_append]
    rfl

/-! ## Lengths -/

theorem length_dropEndWhile_le (p : Char → Bool) (t : Text) :
    (dropEndWhile p t).length ≤ t.length := by
  obtain ⟨u, hu, -⟩ := exists_dropEndWhile p t
  conv => rhs; rw [hu]
  simp

theorem length_trimWhile_le (p : Char → Bool) (t : Text) : (trimWhile p t).length ≤ t.length :=
  (length_dropEndWhile_le p _).trans (List.dropWhile_suffix p).length_le

theorem length_ofLines_map_le {f : Text → Text} {ls : List Text}
    (h : ∀ l ∈ ls, (f l).length ≤ l.length) :
    (ofLines (ls.map f)).length ≤ (ofLines ls).length := by
  induction ls with
  | nil => exact Nat.le_refl _
  | cons l ls ih =>
    cases ls with
    | nil => exact h l (by simp)
    | cons k ks =>
      have hl := h l (by simp)
      have hrest := ih fun m hm => h m (List.mem_cons_of_mem l hm)
      rw [List.map_cons, ofLines_cons (by simp), ofLines_cons (by simp)]
      simp only [List.length_append, List.length_cons]
      omega

/-- Moving a text to the left does not make it longer. -/
theorem length_dedent_le (t : Text) : (dedent t).length ≤ t.length := by
  have hlines : ∀ l ∈ lines t, (withoutMargin (margin ((lines t).map emptied)) (emptied l)).length ≤
      l.length := by
    intro l _
    have hmargin : ∀ m k : Text, (withoutMargin m k).length ≤ k.length := by
      intro m k
      rw [withoutMargin]
      cases h : after? m k with
      | none => exact Nat.le_refl _
      | some r =>
        rw [eq_append_of_after? h]
        simp
    have hemptied : (emptied l).length ≤ l.length := by
      rw [emptied]
      split <;> simp
    exact (hmargin _ _).trans hemptied
  have := length_ofLines_map_le hlines
  rw [ofLines_lines] at this
  simp only [dedent, List.map_map]
  exact this

end

end EntityScaffold.Text
