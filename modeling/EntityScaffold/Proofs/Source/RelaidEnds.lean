import EntityScaffold.Proofs.Source.FirstLexeme
import EntityScaffold.Proofs.Text.Relaid

/-!
# Where lexemes end in a text laid out anew

The end of a literal, a comment or a heredoc is found in a text that is laid out anew if it is found
in the text as it was, and what stands up to it is laid out anew.

* `untilQuote_relaid`, `cutAt?_relaid`, `remark_relaid` — literals and comments.
* `lineEnd_relaid` — the end of the line that opens a heredoc.
* `endsAlike_behind` — the end of a heredoc.  A line either closes it or is read on from within, so
  `endsAlike_line` and `endsAlike_within` follow each other.
-/

set_option autoImplicit false

namespace EntityScaffold.Source

open Text

/-! ## Literals and comments -/

variable {s t u v : Text}

theorem untilQuote_blanks {q : Char} (hq : isBlank q = false) {g : Text}
    (hg : ∀ c ∈ g, isBlank c = true) (s : Text) :
    untilQuote q (g ++ s) = (untilQuote q s).map fun (body, rest) => (g ++ body, rest) := by
  induction g with
  | nil => simp
  | cons c g ih =>
    have hne : ∀ {d : Char}, isBlank d = false → c ≠ d := ne_of_isBlank (hg c (by simp))
    rw [List.cons_append, untilQuote_cons (hne (by decide)), if_neg (hne hq),
      ih fun d hd => hg d (by simp [hd]), Option.map_map]
    rfl

/-- A backslash takes one blank with it, the others are passed over. -/
theorem untilQuote_escaped {q : Char} (hq : isBlank q = false) {g : Text} (hne : g ≠ [])
    (hg : ∀ c ∈ g, isBlank c = true) (s : Text) :
    untilQuote q ('\\' :: (g ++ s)) =
      (untilQuote q s).map fun (body, rest) => ('\\' :: (g ++ body), rest) := by
  obtain ⟨c, g, rfl⟩ := List.exists_cons_of_ne_nil hne
  rw [List.cons_append, untilQuote, untilQuote_blanks hq fun d hd => hg d (by simp [hd]),
    Option.map_map]
  rfl

theorem blanks_of_feed {g x : Text} (hg : IsBreak g) (hx : ∀ c ∈ x, isSpaceTab c = true) :
    ∀ c ∈ g ++ x, isBlank c = true := by
  intro c hc
  rcases List.mem_append.mp hc with hc | hc
  · exact hg.blank c hc
  · exact isBlank_of_isSpaceTab (hx c hc)

/-- The end of a literal, also behind a backslash. -/
theorem untilQuote_relaid {q : Char} (hq : q = '\'' ∨ q = '"') (h : Relaid s t) :
    (∀ body rest, untilQuote q s = some (body, rest) → ∃ body' rest',
      untilQuote q t = some (body', rest') ∧ Relaid body body' ∧ Relaid rest rest') ∧
    (∀ body rest, untilQuote q ('\\' :: s) = some (body, rest) → ∃ body' rest',
      untilQuote q ('\\' :: t) = some (body', rest') ∧ Relaid body body' ∧ Relaid rest rest') := by
  have hblank : isBlank q = false := by rcases hq with rfl | rfl <;> decide
  have hslash : q ≠ '\\' := by rcases hq with rfl | rfl <;> decide
  induction h with
  | nil => simp [untilQuote, Ne.symm hslash]
  | @char c s t h ih =>
    constructor
    · intro body rest hs
      by_cases hc : c = '\\'
      · subst hc
        exact ih.2 body rest hs
      · rw [untilQuote_cons hc] at hs ⊢
        split at hs
        · rename_i hcq
          simp only [Option.some.injEq, Prod.mk.injEq] at hs
          obtain ⟨rfl, rfl⟩ := hs
          exact ⟨[], t, by rw [if_pos hcq], .nil, h⟩
        · rename_i hcq
          simp only [Option.map_eq_some_iff, Prod.exists, Prod.mk.injEq] at hs
          obtain ⟨b, r, hs, rfl, rfl⟩ := hs
          obtain ⟨b', r', ht, hb, hr⟩ := ih.1 b r hs
          exact ⟨c :: b', r', by rw [if_neg hcq, ht]; rfl, .char c hb, hr⟩
    · intro body rest hs
      simp only [untilQuote, Option.map_eq_some_iff, Prod.exists, Prod.mk.injEq] at hs
      obtain ⟨b, r, hs, rfl, rfl⟩ := hs
      obtain ⟨b', r', ht, hb, hr⟩ := ih.1 b r hs
      exact ⟨'\\' :: c :: b', r', by simp [untilQuote, ht], .char _ (.char _ hb), hr⟩
  | @feed g g' x x' s t old new head indent indent' _ ih =>
    have hg := blanks_of_feed old indent
    have hg' := blanks_of_feed new indent'
    have hne : ∀ {g x : Text}, IsBreak g → g ++ x ≠ [] := fun hg => by simp [hg.ne_nil]
    simp only [← List.append_assoc]
    constructor
    · intro body rest hs
      rw [untilQuote_blanks hblank hg] at hs
      simp only [Option.map_eq_some_iff, Prod.exists, Prod.mk.injEq] at hs
      obtain ⟨b, r, hs, rfl, rfl⟩ := hs
      obtain ⟨b', r', ht, hb, hr⟩ := ih.1 b r hs
      refine ⟨g' ++ x' ++ b', r', by rw [untilQuote_blanks hblank hg', ht]; rfl, ?_, hr⟩
      simpa only [List.append_assoc] using Relaid.feed old new head indent indent' hb
    · intro body rest hs
      rw [untilQuote_escaped hblank (hne old) hg] at hs
      simp only [Option.map_eq_some_iff, Prod.exists, Prod.mk.injEq] at hs
      obtain ⟨b, r, hs, rfl, rfl⟩ := hs
      obtain ⟨b', r', ht, hb, hr⟩ := ih.1 b r hs
      refine ⟨'\\' :: (g' ++ x' ++ b'), r', ?_, ?_, hr⟩
      · rw [untilQuote_escaped hblank (hne new) hg', ht]
        rfl
      · simpa only [List.append_assoc] using
          Relaid.char '\\' (Relaid.feed old new head indent indent' hb)

/-- Whether a text begins with a mark, and what stands behind it. -/
theorem after?_relaid {p : Text} (hp : ∀ c ∈ p, isBlank c = false) (h : Relaid s t) :
    (after? p s = none ∧ after? p t = none) ∨
      ∃ r r', after? p s = some r ∧ after? p t = some r' ∧ Relaid r r' := by
  have hink : ∀ {p : Text}, (∀ c ∈ p, isBlank c = false) → Relaid.Ink p := fun hp =>
    ⟨fun hmem => absurd (hp _ hmem) (by decide), fun c hc => hp c (List.mem_of_getLast? hc)⟩
  cases hs : after? p s with
  | some r =>
    rw [eq_append_of_after? hs] at h
    obtain ⟨r', rfl, hr⟩ := h.of_ink (hink hp)
    exact .inr ⟨r, r', rfl, after?_append p r', hr⟩
  | none =>
    cases ht : after? p t with
    | none => exact .inl ⟨rfl, rfl⟩
    | some r' =>
      rw [eq_append_of_after? ht] at h
      obtain ⟨r, rfl, -⟩ := h.of_ink_new (hink hp)
      rw [after?_append] at hs
      cases hs

theorem cutAt?_blanks {p : Text} (hp : ∀ d ∈ p, isBlank d = false) (hne : p ≠ []) {g : Text}
    (hg : ∀ d ∈ g, isBlank d = true) (s : Text) :
    cutAt? p (g ++ s) = (cutAt? p s).map fun (body, rest) => (g ++ body, rest) := by
  induction g with
  | nil => simp
  | cons d g ih =>
    have hnone : after? p (d :: (g ++ s)) = none := by
      obtain ⟨c, p, rfl⟩ := List.exists_cons_of_ne_nil hne
      refine if_neg ?_
      rintro rfl
      have := hp c (by simp)
      rw [hg c (by simp)] at this
      cases this
    rw [List.cons_append, cutAt?, hnone]
    simp only
    rw [ih fun e he => hg e (by simp [he]), Option.map_map]
    rfl

/-- The end of a comment. -/
theorem cutAt?_relaid {p : Text} (hp : ∀ d ∈ p, isBlank d = false) (hne : p ≠ [])
    (h : Relaid s t) :
    (cutAt? p s = none ∧ cutAt? p t = none) ∨
      ∃ b r b' r', cutAt? p s = some (b, r) ∧ cutAt? p t = some (b', r') ∧
        Relaid b b' ∧ Relaid r r' := by
  induction h with
  | nil => simp [cutAt?, hne]
  | @char d s t h ih =>
    rw [cutAt?, cutAt?]
    rcases after?_relaid hp (.char d h) with ⟨hs, ht⟩ | ⟨r, r', hs, ht, hr⟩
    · rw [hs, ht]
      rcases ih with ⟨hs, ht⟩ | ⟨b, r, b', r', hs, ht, hb, hr⟩
      · rw [hs, ht]
        exact .inl ⟨rfl, rfl⟩
      · rw [hs, ht]
        exact .inr ⟨d :: b, r, d :: b', r', rfl, rfl, .char d hb, hr⟩
    · rw [hs, ht]
      exact .inr ⟨[], r, [], r', rfl, rfl, .nil, hr⟩
  | @feed g g' x x' s t old new head indent indent' _ ih =>
    rw [← List.append_assoc, ← List.append_assoc, cutAt?_blanks hp hne (blanks_of_feed old indent),
      cutAt?_blanks hp hne (blanks_of_feed new indent')]
    rcases ih with ⟨hs, ht⟩ | ⟨b, r, b', r', hs, ht, hb, hr⟩
    · rw [hs, ht]
      exact .inl ⟨rfl, rfl⟩
    · rw [hs, ht]
      refine .inr ⟨_, r, _, r', rfl, rfl, ?_, hr⟩
      simpa only [List.append_assoc] using Relaid.feed old new head indent indent' hb

/-- The end of a comment that ends with its line: blanks at its end may be gone. -/
theorem remark_relaid {r rest v : Text} (hline : '\n' ∉ r) (hend : ∀ c ∈ rest.head?, c = '\n')
    (h : Relaid (r ++ rest) v) :
    ∃ r' y rest', r = r' ++ y ∧ v = r' ++ rest' ∧ (∀ c ∈ y, isBlank c = true) ∧
      (∀ c ∈ rest'.head?, c = '\n') ∧ Relaid (stripStart rest) (stripStart rest') := by
  generalize hx : r ++ rest = x at h
  induction h generalizing r with
  | nil =>
    obtain ⟨rfl, rfl⟩ := List.append_eq_nil_iff.mp hx
    exact ⟨[], [], [], rfl, rfl, by simp, by simp, .nil⟩
  | @char c s t h ih =>
    cases r with
    | nil =>
      rw [List.nil_append] at hx
      subst hx
      exact ⟨[], [], c :: t, rfl, rfl, by simp, by simpa using hend, (Relaid.char c h).stripStart⟩
    | cons d r =>
      obtain ⟨rfl, hs⟩ := List.cons.inj hx
      simp only [List.mem_cons, not_or] at hline
      obtain ⟨r', y, rest', rfl, rfl, hy, hend', hrest⟩ := ih hline.2 hs
      exact ⟨d :: r', y, rest', rfl, rfl, hy, hend', hrest⟩
  | @feed g g' x x' s t old new head indent indent' h _ =>
    -- the line ends within the break, so what is left of the comment there is blank
    obtain ⟨g₂, rfl, rfl⟩ : ∃ g₂, g = r ++ g₂ ∧ rest = g₂ ++ (x ++ s) := by
      rcases List.append_eq_append_iff.mp hx with ⟨g₂, hg, hrest⟩ | ⟨r₂, hr, -⟩
      · exact ⟨g₂, hg, hrest⟩
      · exact absurd (hr ▸ List.mem_append_left r₂ old.mem) hline
    have hblank : ∀ c ∈ r, isBlank c = true := fun c hc => old.blank c (by simp [hc])
    refine ⟨[], r, _, rfl, rfl, hblank, by simp [List.head?_append, head], ?_⟩
    have hstrip := (Relaid.feed old new head indent indent' h).stripStart
    rw [List.append_assoc, stripStart, List.dropWhile_append_of_pos hblank] at hstrip
    exact hstrip

/-! ## Heredocs -/

theorem IsName.isBlank {label : Text} (h : IsName label) : ∀ c ∈ label, isBlank c = false := by
  intro c hc
  cases hb : Text.isBlank c with
  | false => rfl
  | true =>
    rw [← isWord_of_isBlank hb, h.isWord c hc]

/-- A label, also behind spaces and tabs, ends within its line with something to see. -/
theorem IsName.ink {label : Text} (h : IsName label) {y : Text}
    (hy : ∀ c ∈ y, isSpaceTab c = true) :
    Relaid.Ink (y ++ label) where
  line := ClosesHeredoc.notMem h ⟨y, hy, rfl⟩
  last := by
    intro c hc
    obtain ⟨d, w, rfl, -, -⟩ := id h
    rw [getLast?_append_of_ne_nil y (by simp)] at hc
    exact h.isBlank c (List.mem_of_getLast? hc)

theorem head?_relaid {c : Char} (hc : isBlank c = false) (h : Relaid s t) :
    s.head? = some c ↔ t.head? = some c := by
  constructor
  · intro hs
    obtain ⟨s, rfl⟩ := List.head?_eq_some_iff.mp hs
    obtain ⟨t, rfl, -⟩ := h.cons hc
    rfl
  · intro ht
    obtain ⟨t, rfl⟩ := List.head?_eq_some_iff.mp ht
    obtain ⟨s, rfl, -⟩ := h.cons_new hc
    rfl

theorem head?_isWord_relaid (h : Relaid s t) :
    (∀ c ∈ s.head?, isWord c = false) ↔ ∀ c ∈ t.head?, isWord c = false := by
  refine forall_congr' fun c => ?_
  cases hb : isBlank c with
  | true => simp [isWord_of_isBlank hb]
  | false => exact imp_congr_left (head?_relaid hb h)

/-- Spaces and tabs in front of a line do not matter. -/
theorem heredocClosing?_indent {label : Text} (hlabel : IsName label) {x : Text}
    (hx : ∀ c ∈ x, isSpaceTab c = true) {closing rest : Text} :
    heredocClosing? label (x ++ s) = some (closing, rest) ↔
      ∃ y, closing = x ++ (y ++ label) ∧ s = y ++ (label ++ rest) ∧ (∀ c ∈ y, isSpaceTab c = true) ∧
        ∀ c ∈ rest.head?, isWord c = false := by
  rw [heredocClosing?_eq_some_iff hlabel]
  constructor
  · rintro ⟨⟨blanks, hblanks, rfl⟩, heq, hrest⟩
    rw [List.append_assoc] at heq
    -- the label begins with no space or tab, so the indentation is not longer than `blanks`
    rcases List.append_eq_append_iff.mp heq with ⟨y, rfl, hy⟩ | ⟨z, rfl, hz⟩
    · exact ⟨y, by simp, hy, fun c hc => hblanks c (by simp [hc]), hrest⟩
    · cases z with
      | nil => exact ⟨[], by simp, by simpa using hz.symm, by simp, hrest⟩
      | cons d z =>
        obtain ⟨c, w, rfl, hc, -⟩ := hlabel
        obtain ⟨rfl, -⟩ := List.cons.inj hz
        have := isSpaceTab_of_isNameStart hc
        rw [hx c (by simp)] at this
        cases this
  · rintro ⟨y, rfl, rfl, hy, hrest⟩
    refine ⟨⟨x ++ y, ?_, by simp⟩, by simp, hrest⟩
    intro c hc
    rcases List.mem_append.mp hc with hc | hc
    · exact hx c hc
    · exact hy c hc

/-- Whether the line closes the heredoc. -/
theorem heredocClosing?_relaid {label : Text} (hlabel : IsName label) {x x' : Text}
    (hx : ∀ c ∈ x, isSpaceTab c = true) (hx' : ∀ c ∈ x', isSpaceTab c = true) (h : Relaid s t) :
    (heredocClosing? label (x ++ s) = none ∧ heredocClosing? label (x' ++ t) = none) ∨
      ∃ y r r', heredocClosing? label (x ++ s) = some (x ++ (y ++ label), r) ∧
        heredocClosing? label (x' ++ t) = some (x' ++ (y ++ label), r') ∧ Relaid r r' := by
  cases hs : heredocClosing? label (x ++ s) with
  | some found =>
    obtain ⟨closing, r⟩ := found
    obtain ⟨y, rfl, rfl, hy, hr⟩ := (heredocClosing?_indent hlabel hx).mp hs
    rw [← List.append_assoc] at h
    obtain ⟨r', rfl, hrest⟩ := h.of_ink (hlabel.ink hy)
    refine .inr ⟨y, r, r', rfl, ?_, hrest⟩
    exact (heredocClosing?_indent hlabel hx').mpr
      ⟨y, rfl, List.append_assoc .., hy, (head?_isWord_relaid hrest).mp hr⟩
  | none =>
    refine .inl ⟨rfl, Option.eq_none_iff_forall_ne_some.mpr ?_⟩
    rintro ⟨closing, r'⟩ ht
    obtain ⟨y, rfl, rfl, hy, hr⟩ := (heredocClosing?_indent hlabel hx').mp ht
    rw [← List.append_assoc] at h
    obtain ⟨r, rfl, hrest⟩ := h.of_ink_new (hlabel.ink hy)
    have hfound := (heredocClosing?_indent hlabel hx).mpr
      ⟨y, rfl, List.append_assoc y label r, hy, (head?_isWord_relaid hrest).mpr hr⟩
    rw [hs] at hfound
    cases hfound

/-- No blank line closes a heredoc. -/
theorem heredocClosing?_break {label : Text} (hlabel : IsName label) {g : Text} (hg : IsBreak g)
    (s : Text) : heredocClosing? label (g ++ s) = none := by
  rw [Option.eq_none_iff_forall_ne_some]
  rintro ⟨closing, rest⟩ hclose
  obtain ⟨⟨y, hy, rfl⟩, heq, -⟩ := (heredocClosing?_eq_some_iff hlabel).mp hclose
  obtain ⟨c, w, rfl, -, -⟩ := id hlabel
  exact (hlabel.ink hy).ne_append (by simp) hg heq.symm

theorem untilLabel_break {label : Text} (hlabel : IsName label) {g : Text} (hg : IsBreak g)
    (start : Bool) (s : Text) :
    untilLabel label start (g ++ s) =
      (untilLabel label true s).map fun (body, closing, rest) => (g ++ body, closing, rest) := by
  induction g generalizing start with
  | nil => exact absurd rfl hg.ne_nil
  | cons c g ih =>
    have hnone : (if start = true then heredocClosing? label (c :: (g ++ s)) else none) = none := by
      split
      · exact heredocClosing?_break hlabel hg s
      · rfl
    rw [List.cons_append, untilLabel, hnone]
    simp only
    cases g with
    | nil =>
      obtain rfl : c = '\n' := by simpa using hg.last
      rfl
    | cons d g =>
      rw [ih ⟨fun e he => hg.blank e (by simp [he]), hg.last⟩, Option.map_map]
      rfl

/-- A line that does not close the heredoc is passed over. -/
theorem untilLabel_indent {label x : Text} (hx : ∀ c ∈ x, isSpaceTab c = true)
    (hnone : heredocClosing? label (x ++ s) = none) :
    untilLabel label true (x ++ s) =
      (untilLabel label false s).map fun (body, closing, rest) => (x ++ body, closing, rest) := by
  have hfalse : ∀ {x : Text}, (∀ c ∈ x, isSpaceTab c = true) → untilLabel label false (x ++ s) =
      (untilLabel label false s).map fun (body, closing, rest) => (x ++ body, closing, rest) := by
    intro x hx
    induction x with
    | nil => simp
    | cons c x ih =>
      have hc : (c == '\n') = false := by
        have := hx c (by simp)
        cases hfeed : c == '\n' with
        | false => rfl
        | true =>
          rw [beq_iff_eq.mp hfeed] at this
          revert this
          decide
      simp only [List.cons_append, untilLabel, hc, Bool.false_eq_true, if_false]
      rw [ih fun d hd => hx d (by simp [hd]), Option.map_map]
      rfl
  rw [← hfalse hx]
  cases hxs : x ++ s with
  | nil => rfl
  | cons c u =>
    rw [hxs] at hnone
    simp [untilLabel, hnone]

/-- The end of a heredoc is found in the second text if it is in the first; what is read up to it
behind `g` and `g'`, together with the blanks and the label that close it, is laid out anew. -/
def EndsAlike (label g g' : Text) (start : Bool) (s t : Text) : Prop :=
  ∀ body closing rest, untilLabel label start s = some (body, closing, rest) →
    ∃ body' closing' rest', untilLabel label start t = some (body', closing', rest') ∧
      Relaid (g ++ (body ++ closing)) (g' ++ (body' ++ closing')) ∧ Relaid rest rest'

theorem no_indent : ∀ c ∈ ([] : Text), isSpaceTab c = true := by simp

/-- A line either closes the heredoc, or is passed over and read on from within. -/
theorem endsAlike_line {label : Text} (hlabel : IsName label) (h : Relaid s t)
    (hwithin : EndsAlike label [] [] false s t) {g g' x x' : Text} (old : IsBreak g)
    (new : IsBreak g') (head : g'.head? = some '\n') (hx : ∀ c ∈ x, isSpaceTab c = true)
    (hx' : ∀ c ∈ x', isSpaceTab c = true) : EndsAlike label g g' true (x ++ s) (x' ++ t) := by
  intro body closing rest hs
  rcases heredocClosing?_relaid hlabel hx hx' h with
    ⟨hnone, hnone'⟩ | ⟨y, r, r', hsome, hsome', hr⟩
  · rw [untilLabel_indent hx hnone] at hs
    simp only [Option.map_eq_some_iff, Prod.exists, Prod.mk.injEq] at hs
    obtain ⟨b, c, r, hs, rfl, rfl, rfl⟩ := hs
    obtain ⟨b', c', r', ht, hb, hr⟩ := hwithin b c r hs
    refine ⟨x' ++ b', c', r', by rw [untilLabel_indent hx' hnone', ht]; rfl, ?_, hr⟩
    rw [List.nil_append, List.nil_append] at hb
    simpa only [List.append_assoc] using Relaid.feed old new head hx hx' hb
  · have hclose : ∀ {u closing rest : Text}, heredocClosing? label u = some (closing, rest) →
        untilLabel label true u = some ([], closing, rest) := by
      intro u closing rest hu
      cases u with
      | nil =>
        obtain ⟨hcloses, heq, -⟩ := (heredocClosing?_eq_some_iff hlabel).mp hu
        exact absurd (List.append_eq_nil_iff.mp heq.symm).1 (hcloses.ne_nil hlabel)
      | cons d u => rw [untilLabel, if_pos rfl, hu]
    rw [hclose hsome] at hs
    cases hs
    refine ⟨[], _, r', hclose hsome', ?_, hr⟩
    simpa using Relaid.feed old new head hx hx' (.refl (y ++ label))

theorem endsAlike_within {label : Text} (hlabel : IsName label) (h : Relaid s t) :
    EndsAlike label [] [] false s t := by
  induction h with
  | nil => simp [EndsAlike, untilLabel]
  | @char d s t h ih =>
    intro body closing rest hs
    -- behind a line feed a line begins
    have hnext : EndsAlike label [d] [d] (d == '\n') s t := by
      by_cases hd : d = '\n'
      · subst hd
        exact endsAlike_line hlabel h ih .lineFeed .lineFeed rfl no_indent no_indent
      · intro b c r hb
        rw [beq_eq_false_iff_ne.mpr hd] at hb ⊢
        obtain ⟨b', c', r', ht, hb, hr⟩ := ih b c r hb
        exact ⟨b', c', r', ht, .char d hb, hr⟩
    simp only [untilLabel, Bool.false_eq_true, if_false, Option.map_eq_some_iff, Prod.exists,
      Prod.mk.injEq] at hs
    obtain ⟨b, c, r, hs, rfl, rfl, rfl⟩ := hs
    obtain ⟨b', c', r', ht, hb, hr⟩ := hnext b c r hs
    exact ⟨d :: b', c', r', by simp [untilLabel, ht], hb, hr⟩
  | @feed g g' x x' s t old new head indent indent' h ih =>
    intro body closing rest hs
    rw [untilLabel_break hlabel old] at hs
    simp only [Option.map_eq_some_iff, Prod.exists, Prod.mk.injEq] at hs
    obtain ⟨b, c, r, hs, rfl, rfl, rfl⟩ := hs
    obtain ⟨b', c', r', ht, hb, hr⟩ :=
      endsAlike_line hlabel h ih old new head indent indent' b c r hs
    refine ⟨g' ++ b', c', r', by rw [untilLabel_break hlabel new, ht]; rfl, ?_, hr⟩
    simpa using hb

/-- The end of a heredoc behind the line that opens it. -/
theorem endsAlike_behind {label : Text} (hlabel : IsName label)
    (h : Relaid ('\n' :: s) ('\n' :: t)) : EndsAlike label ['\n'] ['\n'] true s t := by
  generalize hu : '\n' :: s = u at h
  generalize hv : '\n' :: t = v at h
  cases h with
  | nil => cases hu
  | char c h =>
    cases hu
    cases hv
    exact endsAlike_line hlabel h (endsAlike_within hlabel h) .lineFeed .lineFeed rfl no_indent
      no_indent
  | @feed g g' x x' s' t' old new head indent indent' h =>
    -- the line feed is the first character of both breaks; the rest of them is passed over
    have hrest : ∀ {g w : Text} {s₀ : Text}, IsBreak g → '\n' :: s₀ = g ++ w →
        ∃ b, g = '\n' :: b ∧ s₀ = b ++ w ∧ untilLabel label true s₀ =
          (untilLabel label true w).map fun (body, closing, r) => (b ++ body, closing, r) := by
      intro g w s₀ hg heq
      obtain ⟨c, b, rfl⟩ := List.exists_cons_of_ne_nil hg.ne_nil
      obtain ⟨rfl, rfl⟩ := List.cons.inj heq
      refine ⟨b, rfl, rfl, ?_⟩
      cases b with
      | nil => simp
      | cons d b =>
        exact untilLabel_break (g := d :: b) hlabel ⟨fun e he => hg.blank e (by simp [he]), hg.last⟩
          true w
    obtain ⟨b, rfl, rfl, hb⟩ := hrest old hu
    obtain ⟨b', rfl, rfl, hb'⟩ := hrest new hv
    intro body closing rest hs
    rw [hb] at hs
    simp only [Option.map_eq_some_iff, Prod.exists, Prod.mk.injEq] at hs
    obtain ⟨body, c, r, hs, rfl, rfl, rfl⟩ := hs
    obtain ⟨body', c', r', ht, hbody, hr⟩ := endsAlike_line hlabel h (endsAlike_within hlabel h)
      old new rfl indent indent' body c r hs
    refine ⟨b' ++ body', c', r', by rw [hb', ht]; rfl, ?_, hr⟩
    simpa using hbody

/-! ## The line that opens a heredoc -/

/-- What stands on the line up to its end, which may be another one. -/
theorem OpensHeredoc.exists_ink {label opening : Text} (h : OpensHeredoc label opening) :
    ∃ p ending, opening = p ++ ending ∧ Relaid.Ink ("<<<" ++ p) ∧
      (ending = ['\n'] ∨ ending = ['\r', '\n']) ∧
      ∀ e, (e = ['\n'] ∨ e = ['\r', '\n']) → OpensHeredoc label (p ++ e) := by
  obtain ⟨hblanks, hquote, hlabel, hending⟩ := h
  rename_i blanks quote ending
  refine ⟨blanks ++ (quote ++ (label ++ quote)), ending, by simp, ⟨?_, ?_⟩, hending, ?_⟩
  · have hlabel' : '\n' ∉ label := fun hmem => absurd (hlabel.isWord _ hmem) (by decide)
    have hquote' : '\n' ∉ quote := by rcases hquote with rfl | rfl | rfl <;> decide
    have harrows : '\n' ∉ ("<<<" : Text) := by decide
    simp only [List.mem_append, not_or]
    exact ⟨harrows, notMem_of_spaceTabs hblanks, hquote', hlabel', hquote'⟩
  · intro c hc
    obtain ⟨d, w, rfl, -, -⟩ := id hlabel
    have hne : quote ++ (d :: w ++ quote) ≠ [] := by simp
    rw [← List.append_assoc, getLast?_append_of_ne_nil _ hne,
      getLast?_append_of_ne_nil _ (by simp)] at hc
    have hquote' : ∀ {q : Text}, (q = [] ∨ q = ['\''] ∨ q = ['"']) →
        ∀ c ∈ q, isBlank c = false := by
      rintro q (rfl | rfl | rfl) <;> decide
    rcases List.mem_append.mp (List.mem_of_getLast? hc) with hc | hc
    · exact hlabel.isBlank c hc
    · exact hquote' hquote c hc
  · intro ending' hending'
    have := OpensHeredoc.intro hblanks hquote hlabel hending'
    simpa only [List.append_assoc] using this

/-- The end of the line that opens a heredoc. -/
theorem lineEnd_relaid {ending inside w : Text} (hending : ending = ['\n'] ∨ ending = ['\r', '\n'])
    (h : Relaid (ending ++ inside) w) :
    ∃ ending' inside', w = ending' ++ inside' ∧ (ending' = ['\n'] ∨ ending' = ['\r', '\n']) ∧
      Relaid ('\n' :: inside) ('\n' :: inside') := by
  have hfeed : ∀ {s w : Text}, Relaid ('\n' :: s) w →
      ∃ t, w = '\n' :: t ∧ Relaid ('\n' :: s) ('\n' :: t) := by
    intro s w h
    generalize hx : '\n' :: s = x at h ⊢
    cases h with
    | nil => cases hx
    | char c h =>
      cases hx
      exact ⟨_, rfl, .char _ h⟩
    | feed old new head indent indent' h =>
      obtain ⟨b, rfl⟩ := List.head?_eq_some_iff.mp head
      exact ⟨_, rfl, .feed old new head indent indent' h⟩
  rcases hending with rfl | rfl
  · obtain ⟨t, rfl, h⟩ := hfeed h
    exact ⟨['\n'], t, rfl, .inl rfl, h⟩
  · generalize hx : ['\r', '\n'] ++ inside = x at h
    cases h with
    | nil => cases hx
    | char c h =>
      cases hx
      obtain ⟨t, rfl, h⟩ := hfeed h
      exact ⟨['\r', '\n'], t, rfl, .inr rfl, h⟩
    | @feed g g' _ _ _ _ old new head indent indent' h =>
      -- the line feed is also the first one of the break, whose carriage return goes
      obtain ⟨c, g, rfl⟩ := List.exists_cons_of_ne_nil old.ne_nil
      obtain ⟨rfl, hinside⟩ := List.cons.inj hx
      cases g with
      | nil => exact absurd old.last (by decide)
      | cons d g =>
        obtain ⟨rfl, rfl⟩ := List.cons.inj hinside
        obtain ⟨b, rfl⟩ := List.head?_eq_some_iff.mp head
        have hbreak : IsBreak ('\n' :: g) := ⟨fun c hc => old.blank c (by simp [hc]), old.last⟩
        exact ⟨['\n'], _, rfl, .inl rfl, .feed hbreak new head indent indent' h⟩

end EntityScaffold.Source
