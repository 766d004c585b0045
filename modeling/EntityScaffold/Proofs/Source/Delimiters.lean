import EntityScaffold.Proofs.Source.Pieces

/-!
# Where literals, comments and heredocs end

The end of a literal, of a comment between marks and of a heredoc is looked for from the front, so
it is found in the same place whatever follows it.  Around a heredoc stand the rest of a line that
opens it and the beginning of a line that closes it; both are described here in words.

* `untilQuote_front`, `cutAt?_front` — the end of a literal and of a comment.
* `heredocOpening?_eq_some_iff`, `heredocClosing?_eq_some_iff` — the lines around a heredoc.
* `untilLabel_front` — the end of a heredoc, which also asks what follows the label.
-/

set_option autoImplicit false

namespace EntityScaffold.Source

open Text

/-! ## A fixed beginning -/

/-- Whether a text begins with `p` is seen on as many characters as `p` has. -/
theorem after?_append_of_le {p s : Text} (h : p.length ≤ s.length) (u : Text) :
    after? p (s ++ u) = (after? p s).map (· ++ u) := by
  induction p generalizing s with
  | nil => simp [after?]
  | cons c p ih =>
    cases s with
    | nil => simp at h
    | cons d s =>
      simp only [List.cons_append, after?]
      split
      · exact ih (by simpa using h)
      · rfl

/-- A text that goes on with a character not in `p` begins with `p` if its first part does. -/
theorem after?_append_eq_none {p : Text} (s : Text) {u u' : Text} (hu : ∀ c ∈ u.head?, c ∉ p)
    (hu' : ∀ c ∈ u'.head?, c ∉ p) (hne : p ≠ []) (h : after? p (s ++ u) = none) :
    after? p (s ++ u') = none := by
  induction p generalizing s with
  | nil => exact absurd rfl hne
  | cons c p ih =>
    cases s with
    | nil =>
      cases u' with
      | nil => rfl
      | cons d u' =>
        have : c ≠ d := fun hc => hu' d (by simp) (by simp [hc])
        simp [after?, this]
    | cons d s =>
      simp only [List.cons_append, after?] at h ⊢
      split
      · rename_i hcd
        rw [if_pos hcd] at h
        cases p with
        | nil => simp [after?] at h
        | cons e p =>
          exact ih s (fun x hx hmem => hu x hx (List.mem_cons_of_mem _ hmem))
            (fun x hx hmem => hu' x hx (List.mem_cons_of_mem _ hmem)) (by simp) h
      · rfl

/-! ## The parts of a literal, a comment and a heredoc -/

/-- One character of a literal that takes none with it. -/
theorem untilQuote_cons {c : Char} (hc : c ≠ '\\') (q : Char) (t : Text) :
    untilQuote q (c :: t) =
      if c = q then some ([], t)
      else (untilQuote q t).map fun (body, rest) => (c :: body, rest) := by
  rw [untilQuote]
  exact fun _ _ hslash _ => hc hslash

theorem untilQuote_front {q : Char} {t body rest : Text} (hq : q ≠ '\\')
    (h : untilQuote q t = some (body, rest)) (rest' : Text) :
    untilQuote q (body ++ q :: rest') = some (body, rest') := by
  fun_induction untilQuote q t generalizing body rest with
  | case1 => simp at h
  | case2 c t ih =>
    simp only [Option.map_eq_some_iff, Prod.exists, Prod.mk.injEq] at h
    obtain ⟨b, r, h, rfl, rfl⟩ := h
    simp [untilQuote, ih h]
  | case3 c t =>
    simp only [Option.some.injEq, Prod.mk.injEq] at h
    obtain ⟨rfl, rfl⟩ := h
    rw [List.nil_append, untilQuote_cons hq, if_pos rfl]
  | case4 c t hesc hne ih =>
    simp only [Option.map_eq_some_iff, Prod.exists, Prod.mk.injEq] at h
    obtain ⟨b, r, h, rfl, rfl⟩ := h
    -- a backslash here would be the last character, and no quote would follow
    have hc : c ≠ '\\' := by
      rintro rfl
      cases t with
      | nil => simp [untilQuote] at h
      | cons d t => exact hesc d t rfl rfl
    rw [List.cons_append, untilQuote_cons hc, if_neg hne, ih h]
    rfl

theorem cutAt?_front {p t body rest : Text} (hne : p ≠ []) (h : cutAt? p t = some (body, rest))
    (rest' : Text) : cutAt? p (body ++ p ++ rest') = some (body, rest') := by
  induction t generalizing body with
  | nil => simp [cutAt?, hne] at h
  | cons c t ih =>
    simp only [cutAt?] at h
    split at h
    · simp only [Option.some.injEq, Prod.mk.injEq] at h
      obtain ⟨rfl, rfl⟩ := h
      obtain ⟨d, p, rfl⟩ := List.exists_cons_of_ne_nil hne
      have := after?_append (d :: p) rest'
      rw [List.cons_append] at this
      rw [List.nil_append, List.cons_append, cutAt?, this]
    · rename_i hnone
      simp only [Option.map_eq_some_iff, Prod.exists, Prod.mk.injEq] at h
      obtain ⟨b, r, h, rfl, rfl⟩ := h
      have hnone' : after? p (c :: (b ++ p ++ rest')) = none := by
        have hlen : p.length ≤ (c :: (b ++ p)).length := by simp; omega
        rw [eq_of_cutAt? h, ← List.cons_append, after?_append_of_le hlen, Option.map_eq_none_iff]
          at hnone
        rw [← List.cons_append, after?_append_of_le hlen, hnone]
        rfl
      rw [List.cons_append, List.cons_append, cutAt?, hnone']
      simp only
      rw [ih h]
      rfl

theorem inRanges_eq_false {rs ss : List (Nat × Nat)}
    (h : ∀ r ∈ rs, ∀ s ∈ ss, r.2 < s.1 ∨ s.2 < r.1) {n : Nat} (hn : inRanges rs n = true) :
    inRanges ss n = false := by
  simp only [inRanges, List.any_eq_true, List.any_eq_false, Bool.and_eq_true,
    decide_eq_true_eq] at hn ⊢
  obtain ⟨r, hr, hlow, hhigh⟩ := hn
  intro s hs
  have := h r hr s hs
  omega

/-- No white space is a word character. -/
theorem isWord_of_isBlank {c : Char} (h : isBlank c = true) : isWord c = false := by
  rw [isWord]
  split
  · cases hc : isAsciiWord c with
    | false => rfl
    | true =>
      rw [isBlank_of_isAsciiWord hc] at h
      cases h
  · rw [isBlank] at h
    exact inRanges_eq_false (by decide +kernel) h

theorem takeWhile_append_of_head {p : Char → Bool} {s t : Text} (hs : ∀ c ∈ s, p c = true)
    (ht : ∀ c ∈ t.head?, p c = false) : (s ++ t).takeWhile p = s := by
  rw [List.takeWhile_append_of_pos hs]
  cases t with
  | nil => simp
  | cons c t => simp [ht c (by simp)]

/-- A name: a letter or underscore and further word characters. -/
def IsName (label : Text) : Prop :=
  ∃ c w, label = c :: w ∧ isNameStart c = true ∧ ∀ d ∈ w, isWord d = true

theorem isAsciiWord_of_isNameStart {c : Char} (h : isNameStart c = true) :
    isAsciiWord c = true := by
  simp only [isNameStart, Bool.or_eq_true] at h
  simp only [isAsciiWord, Bool.or_eq_true]
  tauto

theorem isSpaceTab_of_isNameStart {c : Char} (h : isNameStart c = true) :
    isSpaceTab c = false := by
  cases hc : isSpaceTab c with
  | false => rfl
  | true => rw [← isBlank_of_isAsciiWord (isAsciiWord_of_isNameStart h), isBlank_of_isSpaceTab hc]

theorem IsName.isWord {label : Text} (h : IsName label) : ∀ c ∈ label, isWord c = true := by
  obtain ⟨c, w, rfl, hc, hw⟩ := h
  intro d hd
  rcases List.mem_cons.mp hd with rfl | hd
  · exact isWord_of_isAsciiWord (isAsciiWord_of_isNameStart hc)
  · exact hw d hd

theorem name?_eq_some_iff {t label rest : Text} :
    name? t = some (label, rest) ↔
      IsName label ∧ t = label ++ rest ∧ ∀ c ∈ rest.head?, isWord c = false := by
  constructor
  · intro h
    cases t with
    | nil => simp [name?] at h
    | cons c t =>
      simp only [name?] at h
      split at h
      · rename_i hc
        simp only [Option.some.injEq, Prod.mk.injEq] at h
        obtain ⟨rfl, rfl⟩ := h
        refine ⟨⟨c, _, rfl, hc, fun d hd => ?_⟩, by simp, fun d hd => ?_⟩
        · exact List.mem_takeWhile_imp hd
        · exact head?_dropWhile isWord t d hd
      · cases h
  · rintro ⟨⟨c, w, rfl, hc, hw⟩, rfl, hrest⟩
    exact name?_append hc hw hrest

/-- The rest of the line that opens a heredoc: blanks, the label, perhaps in quotes, and the line
end. -/
inductive OpensHeredoc (label : Text) : Text → Prop where
  | intro {blanks quote ending : Text} (hblanks : ∀ c ∈ blanks, isSpaceTab c = true)
      (hquote : quote = [] ∨ quote = ['\''] ∨ quote = ['"']) (hlabel : IsName label)
      (hending : ending = ['\n'] ∨ ending = ['\r', '\n']) :
      OpensHeredoc label (blanks ++ (quote ++ (label ++ (quote ++ ending))))

theorem OpensHeredoc.isName {label opening : Text} (h : OpensHeredoc label opening) :
    IsName label := by
  obtain ⟨-, -, hlabel, -⟩ := h
  exact hlabel

theorem lineEnd?_eq_some_iff {t ending rest : Text} :
    lineEnd? t = some (ending, rest) ↔
      (ending = ['\n'] ∨ ending = ['\r', '\n']) ∧ t = ending ++ rest := by
  constructor
  · intro h
    unfold lineEnd? at h
    split at h
    all_goals simp only [Option.some.injEq, Prod.mk.injEq, reduceCtorEq] at h
    all_goals simp [← h.1, ← h.2]
  · rintro ⟨rfl | rfl, rfl⟩ <;> rfl

theorem heredocOpening?_eq_some_iff {t opening label rest : Text} :
    heredocOpening? t = some (opening, label, rest) ↔
      OpensHeredoc label opening ∧ t = opening ++ rest := by
  constructor
  · intro h
    have ht := eq_of_heredocOpening? h
    refine ⟨?_, ht⟩
    simp only [heredocOpening?, Option.bind_eq_bind, Option.bind_eq_some_iff, Prod.exists,
      Option.some.injEq, Prod.mk.injEq] at h
    obtain ⟨name, u, hname, v, hv, ending, w, hending, rfl, rfl, rfl⟩ := h
    have hquote : ∀ u : Text, (u.take 1).filter (fun c => c == '\'' || c == '"') = [] ∨
        (u.take 1).filter (fun c => c == '\'' || c == '"') = ['\''] ∨
        (u.take 1).filter (fun c => c == '\'' || c == '"') = ['"'] := by
      intro u
      cases u with
      | nil => simp
      | cons c u => by_cases h₁ : c = '\'' <;> by_cases h₂ : c = '"' <;> simp [h₁, h₂]
    have := OpensHeredoc.intro
      (fun c hc => List.all_eq_true.mp (List.all_takeWhile (l := t)) c hc)
      (hquote (t.dropWhile isSpaceTab)) (name?_eq_some_iff.mp hname).1
      (lineEnd?_eq_some_iff.mp hending).1
    simpa only [List.append_assoc] using this
  · rintro ⟨⟨hblanks, hquote, hlabel, hending⟩, rfl⟩
    rename_i blanks quote ending
    -- the label begins with a letter, and what stands behind it is no word character
    obtain ⟨c, w, hcw, hc, hw⟩ := id hlabel
    have hasciiWord := isAsciiWord_of_isNameStart hc
    have hspace := isSpaceTab_of_isNameStart hc
    have hsingle : c ≠ '\'' := ne_of_isAsciiWord hasciiWord (by decide)
    have hdouble : c ≠ '"' := ne_of_isAsciiWord hasciiWord (by decide)
    have hbehind : ∀ d ∈ (quote ++ (ending ++ rest)).head?, isWord d = false := by
      rcases hquote with rfl | rfl | rfl <;> rcases hending with rfl | rfl <;> simp <;> decide
    have hfront : ∀ d ∈ (quote ++ (label ++ (quote ++ (ending ++ rest)))).head?,
        isSpaceTab d = false := by
      rcases hquote with rfl | rfl | rfl <;> simp [hcw, hspace] <;> decide
    have hdrop : (blanks ++ (quote ++ (label ++ (quote ++ (ending ++ rest))))).dropWhile
        isSpaceTab = quote ++ (label ++ (quote ++ (ending ++ rest))) := by
      rw [List.dropWhile_append_of_pos hblanks, dropWhile_of_head hfront]
    have htake := takeWhile_append_of_head hblanks hfront
    have hfilter : ((quote ++ (label ++ (quote ++ (ending ++ rest)))).take 1).filter
        (fun c => c == '\'' || c == '"') = quote := by
      rcases hquote with rfl | rfl | rfl <;> simp [hcw, hsingle, hdouble]
    simp only [List.append_assoc, heredocOpening?, htake, hdrop, hfilter, List.drop_left,
      name?_eq_some_iff.mpr ⟨hlabel, rfl, hbehind⟩, after?_append,
      lineEnd?_eq_some_iff.mpr ⟨hending, rfl⟩, Option.bind_eq_bind, Option.bind_some]

/-- The part of the line that closes a heredoc: blanks and the label. -/
def ClosesHeredoc (label closing : Text) : Prop :=
  ∃ blanks, (∀ c ∈ blanks, isSpaceTab c = true) ∧ closing = blanks ++ label

theorem heredocClosing?_eq_some_iff {label t closing rest : Text} (hlabel : IsName label) :
    heredocClosing? label t = some (closing, rest) ↔
      ClosesHeredoc label closing ∧ t = closing ++ rest ∧ ∀ c ∈ rest.head?, isWord c = false := by
  constructor
  · intro h
    have ht := eq_of_heredocClosing? h
    simp only [heredocClosing?, Option.bind_eq_bind, Option.bind_eq_some_iff] at h
    obtain ⟨r, -, h⟩ := h
    split at h
    · cases h
    · rename_i hword
      simp only [Option.some.injEq, Prod.mk.injEq] at h
      obtain ⟨rfl, rfl⟩ := h
      refine ⟨⟨_, fun c hc => List.all_eq_true.mp List.all_takeWhile c hc, rfl⟩, ht, ?_⟩
      intro d hd
      rw [hd] at hword
      simpa using hword
  · rintro ⟨⟨blanks, hblanks, rfl⟩, rfl, hrest⟩
    obtain ⟨c, w, rfl, hc, -⟩ := hlabel
    have hspace := isSpaceTab_of_isNameStart hc
    have hword : ¬ (rest.head?.any isWord = true) := by
      cases h : rest.head? with
      | none => simp
      | some d => simp [hrest d h]
    have hdrop : (blanks ++ (c :: w ++ rest)).dropWhile isSpaceTab = c :: w ++ rest := by
      rw [List.dropWhile_append_of_pos hblanks, dropWhile_of_head (by simpa using hspace)]
    have htake : (blanks ++ (c :: w ++ rest)).takeWhile isSpaceTab = blanks :=
      takeWhile_append_of_head hblanks (by simpa using hspace)
    rw [List.append_assoc, heredocClosing?, hdrop, after?_append, htake]
    simp only [Option.bind_eq_bind, Option.bind_some]
    rw [if_neg hword]

/-- What stands in front of the closing line of a heredoc ends with a line feed. -/
theorem endsLine_of_untilLabel {label t body closing rest : Text} {start : Bool}
    (h : untilLabel label start t = some (body, closing, rest)) :
    (start = true ∧ body = []) ∨ body.getLast? = some '\n' := by
  induction t generalizing start body with
  | nil => simp [untilLabel] at h
  | cons c t ih =>
    simp only [untilLabel] at h
    split at h
    · rename_i hclose
      split at hclose
      · rename_i hstart
        simp only [Option.some.injEq, Prod.mk.injEq] at h
        exact .inl ⟨hstart, h.1.symm⟩
      · cases hclose
    · simp only [Option.map_eq_some_iff, Prod.exists, Prod.mk.injEq] at h
      obtain ⟨b, _, _, h, rfl, rfl, rfl⟩ := h
      rcases ih h with ⟨hc, rfl⟩ | hlast
      · simpa using hc
      · rw [← List.singleton_append, getLast?_append_of_ne_nil _ (by rintro rfl; simp at hlast)]
        exact .inr hlast

theorem closing_of_untilLabel {label t body closing rest : Text} {start : Bool}
    (h : untilLabel label start t = some (body, closing, rest)) :
    heredocClosing? label (closing ++ rest) = some (closing, rest) := by
  induction t generalizing start body closing rest with
  | nil => simp [untilLabel] at h
  | cons c t ih =>
    simp only [untilLabel] at h
    split at h
    · rename_i hclose
      split at hclose
      · simp only [Option.some.injEq, Prod.mk.injEq] at h
        obtain ⟨-, rfl, rfl⟩ := h
        rwa [← eq_of_heredocClosing? hclose]
      · cases hclose
    · simp only [Option.map_eq_some_iff, Prod.exists, Prod.mk.injEq] at h
      obtain ⟨b, closing, rest, h, -, rfl, rfl⟩ := h
      exact ih h

theorem ClosesHeredoc.notMem {label closing : Text} (hlabel : IsName label)
    (h : ClosesHeredoc label closing) : '\n' ∉ closing := by
  obtain ⟨blanks, hblanks, rfl⟩ := h
  intro hmem
  rcases List.mem_append.mp hmem with hmem | hmem
  · exact notMem_of_spaceTabs hblanks hmem
  · exact absurd (hlabel.isWord _ hmem) (by decide)

theorem ClosesHeredoc.ne_nil {label closing : Text} (hlabel : IsName label)
    (h : ClosesHeredoc label closing) : closing ≠ [] := by
  obtain ⟨blanks, -, rfl⟩ := h
  obtain ⟨c, w, rfl, -, -⟩ := hlabel
  simp

/-- A body that ends with its line does not hold the closing line, whatever follows it. -/
theorem heredocClosing?_front {label s u : Text} (hlabel : IsName label)
    (hlast : s.getLast? = some '\n') (h : heredocClosing? label (s ++ u) = none) (u' : Text) :
    heredocClosing? label (s ++ u') = none := by
  rw [Option.eq_none_iff_forall_ne_some]
  rintro ⟨closing, rest⟩ hclose
  obtain ⟨hcloses, heq, hrest⟩ := (heredocClosing?_eq_some_iff hlabel).mp hclose
  -- the closing part holds no line feed, so it is a proper beginning of `s`
  rcases List.append_eq_append_iff.mp heq with ⟨c', rfl, -⟩ | ⟨s', rfl, rfl⟩
  · exact hcloses.notMem hlabel (List.mem_append_left _ (List.mem_of_getLast? hlast))
  · cases s' with
    | nil =>
      rw [List.append_nil] at hlast
      exact hcloses.notMem hlabel (List.mem_of_getLast? hlast)
    | cons d s' =>
      have hfound := (heredocClosing?_eq_some_iff hlabel).mpr
        ⟨hcloses, List.append_assoc closing (d :: s') u, hrest⟩
      rw [hfound] at h
      cases h

theorem untilLabel_front {label t body closing rest : Text} {start : Bool} (hlabel : IsName label)
    (h : untilLabel label start t = some (body, closing, rest)) {rest' : Text}
    (hrest : ∀ c ∈ rest'.head?, isWord c = false) :
    untilLabel label start (body ++ (closing ++ rest')) = some (body, closing, rest') := by
  induction t generalizing start body closing rest with
  | nil => simp [untilLabel] at h
  | cons c t ih =>
    simp only [untilLabel] at h
    split at h
    · rename_i hclose
      split at hclose
      · rename_i hstart
        simp only [Option.some.injEq, Prod.mk.injEq] at h
        obtain ⟨rfl, rfl, rfl⟩ := h
        obtain ⟨hcloses, -, -⟩ := (heredocClosing?_eq_some_iff hlabel).mp hclose
        obtain ⟨d, w, hd⟩ := List.exists_cons_of_ne_nil (hcloses.ne_nil hlabel)
        have hagain := (heredocClosing?_eq_some_iff hlabel).mpr ⟨hcloses, rfl, hrest⟩
        rw [hd] at hagain ⊢
        rw [List.nil_append, List.cons_append, untilLabel, if_pos hstart]
        rw [List.cons_append] at hagain
        rw [hagain]
      · cases hclose
    · rename_i hclose
      simp only [Option.map_eq_some_iff, Prod.exists, Prod.mk.injEq] at h
      obtain ⟨b, closing, rest, h, rfl, rfl, rfl⟩ := h
      have hnone : (if start = true then heredocClosing? label (c :: (b ++ (closing ++ rest')))
          else none) = none := by
        split
        · rename_i hstart
          rw [if_pos hstart, eq_of_untilLabel h, List.append_assoc, ← List.cons_append] at hclose
          refine heredocClosing?_front hlabel ?_ hclose _
          rcases endsLine_of_untilLabel h with ⟨hc, rfl⟩ | hlast
          · simpa using hc
          · rw [← List.singleton_append, getLast?_append_of_ne_nil _ (by rintro rfl; simp at hlast)]
            exact hlast
        · rfl
      rw [List.cons_append, untilLabel, hnone]
      simp only
      rw [ih h]
      rfl

end EntityScaffold.Source
