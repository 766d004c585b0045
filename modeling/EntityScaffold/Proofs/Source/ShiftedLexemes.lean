import EntityScaffold.Proofs.Source.Relexed
import EntityScaffold.Proofs.Text.Shifted

/-!
# The lexemes of a text whose lines are shifted

Spaces and tabs at the beginnings of lines do not decide where a lexeme ends.  A literal, a comment
or a heredoc that stands on more than one line takes them in, behind a line feed of code they are
code, and everything else stays as it is.  No lexeme is left out here: three angle brackets stay
code, since no blank is added or taken away at the end of a line.

* `untilQuote_shifted`, `cutAt?_shifted`, `untilLabel_shifted` — where a literal, a comment and a
  heredoc end.
* `First.shifted` — the first lexeme.
* `Reads.shifted` — all lexemes, by induction on the reading; what they show is shifted, too.
-/

set_option autoImplicit false

namespace EntityScaffold.Source

open Text

section

variable {s t : Text} {start : Bool}

theorem isBlank_of_spaceTabs {x : Text} (hx : ∀ c ∈ x, isSpaceTab c = true) :
    ∀ c ∈ x, isBlank c = true :=
  fun c hc => isBlank_of_isSpaceTab (hx c hc)

theorem hide_beq (c : Char) : ((if c = '\n' then '\n' else ' ') == '\n') = (c == '\n') := by
  by_cases hc : c = '\n' <;> simp [hc]

theorem isSpaceTab_of_mem_hide {x : Text} (hx : ∀ c ∈ x, isSpaceTab c = true) :
    ∀ c ∈ hide x, isSpaceTab c = true := by
  intro c hc
  obtain ⟨d, hd, rfl⟩ := List.mem_map.mp hc
  have hne : d ≠ '\n' := by
    rintro rfl
    exact notMem_of_spaceTabs hx hd
  simp [hne, isSpaceTab]

/-- Hiding a text keeps its lines. -/
theorem shifted_hide (h : Shifted start s t) : Shifted start (hide s) (hide t) := by
  induction h with
  | nil => exact .nil _
  | char c _ ih => exact .char _ (hide_beq c ▸ ih)
  | lead hx hy _ ih =>
    rw [hide, hide, List.map_append, List.map_append]
    exact .lead (isSpaceTab_of_mem_hide hx) (isSpaceTab_of_mem_hide hy) ih

/-! ## Literals and comments -/

/-- The end of a literal, also behind a backslash. -/
theorem untilQuote_shifted {q : Char} (hq : q = '\'' ∨ q = '"') (h : Shifted start s t) :
    (∀ body rest, untilQuote q s = some (body, rest) → ∃ body' rest',
      untilQuote q t = some (body', rest') ∧ Shifted start body body' ∧ Shifted false rest rest') ∧
    (start = false → ∀ body rest, untilQuote q ('\\' :: s) = some (body, rest) → ∃ body' rest',
      untilQuote q ('\\' :: t) = some (body', rest') ∧ Shifted false body body' ∧
        Shifted false rest rest') := by
  have hblank : isBlank q = false := by rcases hq with rfl | rfl <;> decide
  have hslash : q ≠ '\\' := by rcases hq with rfl | rfl <;> decide
  have hfeed : (q == '\n') = false := by rcases hq with rfl | rfl <;> decide
  induction h with
  | nil => simp [untilQuote, Ne.symm hslash]
  | @char start c s t h ih =>
    constructor
    · intro body rest hs
      by_cases hc : c = '\\'
      · subst hc
        obtain ⟨body', rest', ht, hbody, hrest⟩ := ih.2 rfl body rest hs
        exact ⟨body', rest', ht, hbody.weaken, hrest⟩
      · rw [untilQuote_cons hc] at hs ⊢
        split at hs
        · rename_i hcq
          simp only [Option.some.injEq, Prod.mk.injEq] at hs
          obtain ⟨rfl, rfl⟩ := hs
          rw [hcq, hfeed] at h
          exact ⟨[], t, by rw [if_pos hcq], .nil _, h⟩
        · rename_i hcq
          simp only [Option.map_eq_some_iff, Prod.exists, Prod.mk.injEq] at hs
          obtain ⟨b, r, hs, rfl, rfl⟩ := hs
          obtain ⟨b', r', ht, hb, hr⟩ := ih.1 b r hs
          exact ⟨c :: b', r', by rw [if_neg hcq, ht]; rfl, .char c hb, hr⟩
    · intro _ body rest hs
      simp only [untilQuote, Option.map_eq_some_iff, Prod.exists, Prod.mk.injEq] at hs
      obtain ⟨b, r, hs, rfl, rfl⟩ := hs
      obtain ⟨b', r', ht, hb, hr⟩ := ih.1 b r hs
      exact ⟨'\\' :: c :: b', r', by simp [untilQuote, ht], .char _ (.char _ hb), hr⟩
  | @lead x y s t hx hy _ ih =>
    refine ⟨fun body rest hs => ?_, fun hstart => by cases hstart⟩
    rw [untilQuote_blanks hblank (isBlank_of_spaceTabs hx)] at hs
    simp only [Option.map_eq_some_iff, Prod.exists, Prod.mk.injEq] at hs
    obtain ⟨b, r, hs, rfl, rfl⟩ := hs
    obtain ⟨b', r', ht, hb, hr⟩ := ih.1 b r hs
    refine ⟨y ++ b', r', ?_, .lead hx hy hb, hr⟩
    rw [untilQuote_blanks hblank (isBlank_of_spaceTabs hy), ht]
    rfl

/-- Whether a text begins with a mark, and what stands behind it. -/
theorem after?_shifted {p : Text} (hp : '\n' ∉ p) (h : Shifted false s t) :
    (after? p s = none ∧ after? p t = none) ∨
      ∃ r r', after? p s = some r ∧ after? p t = some r' ∧ Shifted false r r' := by
  have hsome : ∀ {s t r : Text}, Shifted false s t → after? p s = some r →
      ∃ r', after? p t = some r' ∧ Shifted false r r' := by
    intro s t r h hs
    rw [eq_append_of_after? hs] at h
    obtain ⟨r', rfl, hr⟩ := h.exists_append hp
    exact ⟨r', after?_append p r', hr⟩
  cases hs : after? p s with
  | some r =>
    obtain ⟨r', ht, hr⟩ := hsome h hs
    exact .inr ⟨r, r', rfl, ht, hr⟩
  | none =>
    refine .inl ⟨rfl, Option.eq_none_iff_forall_ne_some.mpr fun r' ht => ?_⟩
    obtain ⟨r, hr, -⟩ := hsome h.symm ht
    rw [hs] at hr
    cases hr

/-- The end of a comment. -/
theorem cutAt?_shifted {p : Text} (hp : ∀ d ∈ p, isBlank d = false) (hne : p ≠ [])
    (h : Shifted start s t) {body rest : Text} (hs : cutAt? p s = some (body, rest)) :
    ∃ body' rest', cutAt? p t = some (body', rest') ∧ Shifted start body body' ∧
      Shifted false rest rest' := by
  have hline : '\n' ∉ p := fun hmem => absurd (hp _ hmem) (by decide)
  induction h generalizing body rest with
  | nil => simp [cutAt?, hne] at hs
  | @char start d s t h ih =>
    rw [cutAt?] at hs ⊢
    rcases after?_shifted hline (.char d h) with ⟨hnone, hnone'⟩ | ⟨r, r', hsome, hsome', hr⟩
    · rw [hnone] at hs
      rw [hnone']
      simp only [Option.map_eq_some_iff, Prod.exists, Prod.mk.injEq] at hs ⊢
      obtain ⟨b, r, hs, rfl, rfl⟩ := hs
      obtain ⟨b', r', ht, hb, hr⟩ := ih hs
      exact ⟨d :: b', r', ⟨b', r', ht, rfl, rfl⟩, .char d hb, hr⟩
    · rw [hsome] at hs
      rw [hsome']
      cases hs
      exact ⟨[], r', rfl, .nil _, hr⟩
  | @lead x y s t hx hy _ ih =>
    rw [cutAt?_blanks hp hne (isBlank_of_spaceTabs hx)] at hs
    simp only [Option.map_eq_some_iff, Prod.exists, Prod.mk.injEq] at hs
    obtain ⟨b, r, hs, rfl, rfl⟩ := hs
    obtain ⟨b', r', ht, hb, hr⟩ := ih hs
    refine ⟨y ++ b', r', ?_, .lead hx hy hb, hr⟩
    rw [cutAt?_blanks hp hne (isBlank_of_spaceTabs hy), ht]
    rfl

/-! ## Heredocs -/

/-- What follows the angle brackets is one line with its line feed. -/
theorem OpensHeredoc.exists_line {label opening : Text} (h : OpensHeredoc label opening) :
    ∃ line, opening = line ++ ['\n'] ∧ '\n' ∉ line := by
  obtain ⟨p, ending, rfl, hink, hending, -⟩ := h.exists_ink
  have hp : '\n' ∉ p := fun hmem => hink.line (List.mem_append_right _ hmem)
  rcases hending with rfl | rfl
  · exact ⟨p, rfl, hp⟩
  · exact ⟨p ++ ['\r'], by simp, by simpa using hp⟩

/-- Whether a heredoc begins, and what stands inside it. -/
theorem heredocOpening?_shifted (h : Shifted false s t) :
    (heredocOpening? s = none ∧ heredocOpening? t = none) ∨
      ∃ opening label inside inside', heredocOpening? s = some (opening, label, inside) ∧
        heredocOpening? t = some (opening, label, inside') ∧ Shifted true inside inside' := by
  have hsome : ∀ {s t opening label inside : Text}, Shifted false s t →
      heredocOpening? s = some (opening, label, inside) →
      ∃ inside', heredocOpening? t = some (opening, label, inside') ∧
        Shifted true inside inside' := by
    intro s t opening label inside h hs
    obtain ⟨hopens, rfl⟩ := heredocOpening?_eq_some_iff.mp hs
    obtain ⟨line, rfl, hline⟩ := hopens.exists_line
    rw [List.append_assoc] at h
    obtain ⟨t', rfl, hfeed⟩ := h.exists_append hline
    obtain ⟨inside', rfl, hinside⟩ := hfeed.exists_cons
    exact ⟨inside', heredocOpening?_eq_some_iff.mpr ⟨hopens, by simp⟩, hinside⟩
  cases hs : heredocOpening? s with
  | some found =>
    obtain ⟨opening, label, inside⟩ := found
    obtain ⟨inside', ht, hinside⟩ := hsome h hs
    exact .inr ⟨opening, label, inside, inside', rfl, ht, hinside⟩
  | none =>
    refine .inl ⟨rfl, Option.eq_none_iff_forall_ne_some.mpr ?_⟩
    rintro ⟨opening, label, inside⟩ ht
    obtain ⟨inside', hs', -⟩ := hsome h.symm ht
    rw [hs] at hs'
    cases hs'

/-- Whether a line closes the heredoc, and what stands behind the label. -/
theorem heredocClosing?_shifted {label : Text} (hlabel : IsName label) (h : Shifted true s t) :
    (heredocClosing? label s = none ∧ heredocClosing? label t = none) ∨
      ∃ closing closing' rest rest', heredocClosing? label s = some (closing, rest) ∧
        heredocClosing? label t = some (closing', rest') ∧ Shifted true closing closing' ∧
          Shifted false rest rest' := by
  have hsome : ∀ {s t closing rest : Text}, Shifted true s t →
      heredocClosing? label s = some (closing, rest) → ∃ closing' rest',
        heredocClosing? label t = some (closing', rest') ∧ Shifted true closing closing' ∧
          Shifted false rest rest' := by
    intro s t closing rest h hs
    obtain ⟨x, y, s, t, rfl, rfl, hx, hy, hline⟩ := h.exists_lead
    obtain ⟨z, rfl, rfl, hz, hword⟩ := (heredocClosing?_indent hlabel hx).mp hs
    rw [← List.append_assoc] at hline
    obtain ⟨rest', rfl, hrest⟩ := hline.exists_append (hlabel.ink hz).line
    rw [hrest.head?_eq] at hword
    exact ⟨_, rest', (heredocClosing?_indent hlabel hy).mpr
      ⟨z, rfl, List.append_assoc z label rest', hz, hword⟩, .lead hx hy (.refl false _), hrest⟩
  cases hs : heredocClosing? label s with
  | some found =>
    obtain ⟨closing, rest⟩ := found
    obtain ⟨closing', rest', ht, hclosing, hrest⟩ := hsome h hs
    exact .inr ⟨closing, closing', rest, rest', rfl, ht, hclosing, hrest⟩
  | none =>
    refine .inl ⟨rfl, Option.eq_none_iff_forall_ne_some.mpr ?_⟩
    rintro ⟨closing, rest⟩ ht
    obtain ⟨closing', rest', hs', -⟩ := hsome h.symm ht
    rw [hs] at hs'
    cases hs'

/-- What is passed over in front of the end of a heredoc. -/
theorem untilLabel_cons {label : Text} {c : Char}
    (hnone : (if start then heredocClosing? label (c :: s) else none) = none) :
    untilLabel label start (c :: s) = (untilLabel label (c == '\n') s).map
      fun (body, closing, rest) => (c :: body, closing, rest) := by
  rw [untilLabel, hnone]

/-- A line that closes a heredoc ends it. -/
theorem untilLabel_closing {label closing rest : Text} (hlabel : IsName label)
    (h : heredocClosing? label s = some (closing, rest)) :
    untilLabel label true s = some ([], closing, rest) := by
  cases s with
  | nil =>
    obtain ⟨hcloses, hnil, -⟩ := (heredocClosing?_eq_some_iff hlabel).mp h
    exact absurd (List.append_eq_nil_iff.mp hnil.symm).1 (hcloses.ne_nil hlabel)
  | cons c s => rw [untilLabel, if_pos rfl, h]

/-- The end of a heredoc; what is shown of it is shifted. -/
theorem untilLabel_shifted {label : Text} (hlabel : IsName label) (h : Shifted start s t)
    {body closing rest : Text} (hs : untilLabel label start s = some (body, closing, rest)) :
    ∃ body' closing' rest', untilLabel label start t = some (body', closing', rest') ∧
      Shifted start (hide body ++ closing) (hide body' ++ closing') ∧ Shifted false rest rest' := by
  -- a line that closes the heredoc does so in both texts
  have hclose : ∀ {s t body closing rest : Text}, Shifted true s t →
      untilLabel label true s = some (body, closing, rest) →
      (heredocClosing? label s = none ∧ heredocClosing? label t = none) ∨
        ∃ body' closing' rest', untilLabel label true t = some (body', closing', rest') ∧
          Shifted true (hide body ++ closing) (hide body' ++ closing') ∧
          Shifted false rest rest' := by
    intro s t body closing rest h hs
    rcases heredocClosing?_shifted hlabel h with
      hnone | ⟨closing, closing', rest, rest', hsome, hsome', hclosing, hrest⟩
    · exact .inl hnone
    · rw [untilLabel_closing hlabel hsome] at hs
      cases hs
      exact .inr ⟨[], closing', rest', untilLabel_closing hlabel hsome', hclosing, hrest⟩
  induction h generalizing body closing rest with
  | nil => cases hs
  | @char start c s t h ih =>
    have hpass : (if start then heredocClosing? label (c :: s) else none) = none →
        (if start then heredocClosing? label (c :: t) else none) = none →
        ∃ body' closing' rest', untilLabel label start (c :: t) = some (body', closing', rest') ∧
          Shifted start (hide body ++ closing) (hide body' ++ closing') ∧
            Shifted false rest rest' := by
      intro hnone hnone'
      rw [untilLabel_cons hnone] at hs
      simp only [Option.map_eq_some_iff, Prod.exists, Prod.mk.injEq] at hs
      obtain ⟨b, cl, r, hs, rfl, rfl, rfl⟩ := hs
      obtain ⟨b', cl', r', ht, hb, hr⟩ := ih hs
      refine ⟨c :: b', cl', r', by rw [untilLabel_cons hnone', ht]; rfl, ?_, hr⟩
      exact .char _ (hide_beq c ▸ hb)
    cases start with
    | false => exact hpass rfl rfl
    | true =>
      rcases hclose (.char c h) hs with ⟨hnone, hnone'⟩ | hfound
      · exact hpass (by rw [if_pos rfl, hnone]) (by rw [if_pos rfl, hnone'])
      · exact hfound
  | @lead x y s t hx hy h ih =>
    rcases hclose (.lead hx hy h) hs with ⟨hnone, hnone'⟩ | hfound
    · rw [untilLabel_indent hx hnone] at hs
      simp only [Option.map_eq_some_iff, Prod.exists, Prod.mk.injEq] at hs
      obtain ⟨b, cl, r, hs, rfl, rfl, rfl⟩ := hs
      obtain ⟨b', cl', r', ht, hb, hr⟩ := ih hs
      refine ⟨y ++ b', cl', r', by rw [untilLabel_indent hy hnone', ht]; rfl, ?_, hr⟩
      have hhide : ∀ z b cl : Text, hide (z ++ b) ++ cl = hide z ++ (hide b ++ cl) := by
        intro z b cl
        simp [hide]
      rw [hhide, hhide]
      exact .lead (isSpaceTab_of_mem_hide hx) (isSpaceTab_of_mem_hide hy) hb
    · exact hfound

/-! ## The first lexeme -/

theorem standsAlone_shifted {c : Char} (hc : c ≠ '\n') (h : Shifted false s t)
    (hs : StandsAlone c s) : StandsAlone c t := by
  have hchar : Shifted false (c :: s) (c :: t) := .char c (beq_false_of_ne hc ▸ h)
  have hnone : ∀ {p : Text}, '\n' ∉ p → after? p (c :: s) = none → after? p (c :: t) = none := by
    intro p hp hnone
    rcases after?_shifted hp hchar with ⟨-, ht⟩ | ⟨r, r', hr, -, -⟩
    · exact ht
    · rw [hnone] at hr
      cases hr
  have hremark : opensRemark (c :: t) = opensRemark (c :: s) := by
    have hhead := h.head?_eq
    rw [opensRemark_cons, opensRemark_cons, hhead]
    congr 1
    rcases after?_shifted (p := "//") (by decide) hchar with ⟨hs, ht⟩ | ⟨r, r', hs, ht, -⟩ <;>
      rw [startsWith, startsWith, hs, ht]
    rfl
  exact ⟨hs.single, hs.double, hnone (by decide) hs.block, hremark.trans hs.remark,
    hnone (by decide) hs.heredoc⟩

/-- **The first lexeme of a shifted text.** -/
theorem First.shifted {rest : Text} {l : Lexeme} (h : First s l rest) (hst : Shifted false s t)
    (hl : l ≠ .code ['\n']) :
    ∃ k rest', First t k rest' ∧ Shifted false l.shown k.shown ∧ Shifted false rest rest' := by
  cases h with
  | @literal q s body _ hq h =>
    have hfeed : (q == '\n') = false := by rcases hq with rfl | rfl <;> decide
    obtain ⟨t, rfl, hinside⟩ := hst.exists_cons
    rw [hfeed] at hinside
    obtain ⟨body', rest', ht, hbody, hrest⟩ := (untilQuote_shifted hq hinside).1 _ _ h
    have hquote : Shifted false (q :: hide body) (q :: hide body') :=
      .char q (hfeed ▸ shifted_hide hbody)
    exact ⟨_, rest', .literal hq ht, hquote.append (.refl false [q]), hrest⟩
  | @block s body _ h =>
    obtain ⟨t, rfl, hinside⟩ := hst.exists_append (p := "/*") (by decide)
    obtain ⟨body', rest', ht, hbody, hrest⟩ := cutAt?_shifted (by decide) (by simp) hinside h
    have hopen : Shifted false ("/*" ++ body) ("/*" ++ body') :=
      (Shifted.refl false "/*").append hbody
    exact ⟨_, rest', .block ht, shifted_hide (hopen.append (.refl false "*/")), hrest⟩
  | @remark r rest hopen hline hend =>
    obtain ⟨rest', rfl, hrest⟩ := hst.exists_append hline
    exact ⟨_, rest', .remark hopen hline (hrest.head?_eq ▸ hend), .refl false _, hrest⟩
  | @heredoc s opening label inside body closing rest hopen h =>
    obtain ⟨t, rfl, hbehind⟩ := hst.exists_append (p := "<<<") (by decide)
    have hopens := (heredocOpening?_eq_some_iff.mp hopen).1
    rcases heredocOpening?_shifted hbehind with
      ⟨hnone, -⟩ | ⟨opening', label', i, inside', hs, ht, hi⟩
    · rw [hopen] at hnone
      cases hnone
    · rw [hopen] at hs
      cases hs
      obtain ⟨body', closing', rest', hend, hshown, hrest⟩ := untilLabel_shifted hopens.isName hi h
      refine ⟨_, rest', .heredoc ht hend, ?_, hrest⟩
      -- the line that opens the heredoc is shown, and what is hidden begins on the next one
      obtain ⟨line, rfl, -⟩ := hopens.exists_line
      simpa [Lexeme.shown] using hshown.append_line ("<<<" ++ line)
  | @arrows s h =>
    obtain ⟨t, rfl, hbehind⟩ := hst.exists_append (p := "<<<") (by decide)
    rcases heredocOpening?_shifted hbehind with ⟨-, hnone⟩ | ⟨_, _, _, _, hs, -, -⟩
    · exact ⟨_, t, .arrows hnone, .refl false _, hbehind⟩
    · rw [h] at hs
      cases hs
  | @code c s h =>
    have hc : c ≠ '\n' := by
      rintro rfl
      exact hl rfl
    obtain ⟨t, rfl, hbehind⟩ := hst.exists_cons
    rw [beq_false_of_ne hc] at hbehind
    exact ⟨_, t, .code (standsAlone_shifted hc hbehind h), .refl false _, hbehind⟩

/-! ## All lexemes -/

/-- Spaces and tabs in front of a text are code. -/
theorem Reads.exists_lead {x : Text} {ls : List Lexeme} (h : Reads (x ++ s) ls [])
    (hx : ∀ c ∈ x, isSpaceTab c = true) :
    ∃ ms, Reads s ms [] ∧ ls.flatMap Lexeme.shown = x ++ ms.flatMap Lexeme.shown := by
  obtain ⟨ms, rfl, hms⟩ := (reads_blanks (isBlank_of_spaceTabs hx) s).rest_of_append h
  exact ⟨ms, hms, by rw [List.flatMap_append, flatMap_shown_code]⟩

/-- **A shifted text is read to its end as the other one is.** -/
theorem Reads.shifted {ls : List Lexeme} (h : Reads s ls []) (hst : Shifted start s t) :
    ∃ ks, Reads t ks [] ∧ Shifted start (ls.flatMap Lexeme.shown) (ks.flatMap Lexeme.shown) := by
  induction hn : s.length using Nat.strong_induction_on generalizing s t start ls with
  | _ n ih =>
    -- within a line, the first lexeme is read and the rest is shifted
    have hline : ∀ {s t : Text} {ls : List Lexeme}, s.length ≤ n → Reads s ls [] →
        Shifted false s t → ∃ ks, Reads t ks [] ∧
          Shifted false (ls.flatMap Lexeme.shown) (ks.flatMap Lexeme.shown) := by
      intro s t ls hlen h hst
      cases h with
      | done =>
        obtain rfl := hst.eq_of_notMem (by simp)
        exact ⟨[], .done [], .nil false⟩
      | @next _ u _ l ls hfirst hmore =>
        have hlt : u.length < n := by
          have := congrArg List.length hfirst.eq_append
          have := List.length_pos_iff.mpr hfirst.text_ne_nil
          rw [List.length_append] at *
          omega
        by_cases hl : l = .code ['\n']
        · -- behind a line feed of code the next line begins
          subst hl
          rw [hfirst.eq_append] at hst
          obtain ⟨v, rfl, hv⟩ := hst.exists_cons
          obtain ⟨ks, hks, hshown⟩ := ih u.length hlt hmore hv rfl
          exact ⟨_, .next (first_of_lexeme (lexeme_of_isCode (by decide) v)) hks, .char '\n' hshown⟩
        · obtain ⟨k, v, hk, hshown, hv⟩ := hfirst.shifted hst hl
          obtain ⟨ks, hks, hrest⟩ := ih u.length hlt hmore hv rfl
          exact ⟨_, .next hk hks, hshown.append hrest⟩
    cases start with
    | false => exact hline hn.le h hst
    | true =>
      obtain ⟨x, y, s, t, rfl, rfl, hx, hy, hbehind⟩ := hst.exists_lead
      obtain ⟨ms, hms, hshown⟩ := h.exists_lead hx
      obtain ⟨ks, hks, hmore⟩ := hline (by simp at hn; omega) hms hbehind
      refine ⟨_, (reads_blanks (isBlank_of_spaceTabs hy) t).append hks, ?_⟩
      rw [hshown, List.flatMap_append, flatMap_shown_code]
      exact .lead hx hy hmore

end

end EntityScaffold.Source
