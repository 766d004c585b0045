import EntityScaffold.Proofs.Source.Relexed
import EntityScaffold.Proofs.Source.KeptCode

/-!
# Lexemes that end with their line

A piece of a class file that a line feed follows is read for itself: what stands behind the line
feed does not matter, and the piece may be laid out anew.  Three angle brackets of code are left out
throughout, since a line feed behind them may begin a heredoc.

* `Lexed` — the lexemes of a piece and the line feed behind it.
* `lexed_of_reads` — a text that ends with a line feed is such a piece.
* `Lexed.relaid` — the same lexemes but for blanks in a piece laid out anew.
* `lexed_memberText` — moving a member to the left.
* `Stuck.not_reads` — where a comment does not end, moving the member to the left does not end it.
-/

set_option autoImplicit false

namespace EntityScaffold.Source

open Text

/-! ## In front of a line feed -/

/-- The lexemes of a piece and of the line feed behind it, whatever follows. -/
def Lexed (w : Text) (ls : List Lexeme) : Prop := ∀ u, Reads (w ++ '\n' :: u) ls u

theorem swappable_lineFeed {s : Text} (hs : ∀ c ∈ s.head?, c = '\n') (u : Text) :
    Swappable s ('\n' :: u) where
  old := by
    intro c hc
    rw [hs c hc]
    decide
  new := by simpa using (by decide : isInert '\n' = true)
  line := by simp

/-- What ends where a line does ends in front of every line feed. -/
theorem Reads.lineFeed {w s : Text} {ls : List Lexeme} (h : Reads (w ++ s) ls s)
    (hs : ∀ c ∈ s.head?, c = '\n') (harrows : .code "<<<" ∉ ls) (u : Text) :
    Reads (w ++ '\n' :: u) ls ('\n' :: u) := by
  obtain rfl : w = ls.flatMap Lexeme.text := List.append_cancel_right h.eq_append
  exact Reads.swap (s := []) h (swappable_lineFeed hs u) fun hmem => absurd hmem harrows

theorem first_lineFeed (u : Text) : First ('\n' :: u) (.code ['\n']) u :=
  first_of_lexeme (lexeme_of_isCode (by decide) u)

theorem lexed_of_lineFeed {w s : Text} {ls : List Lexeme} (h : Reads (w ++ s) ls s)
    (hs : ∀ c ∈ s.head?, c = '\n') (harrows : .code "<<<" ∉ ls) :
    Lexed w (ls ++ [.code ['\n']]) :=
  fun u => (h.lineFeed hs harrows u).append (.next (first_lineFeed u) (.done u))

theorem Lexed.nil : Lexed [] [.code ['\n']] := fun u => .next (first_lineFeed u) (.done u)

/-- Only a line feed of code ends with a line feed. -/
theorem First.eq_lineFeed {t rest : Text} {l : Lexeme} (h : First t l rest)
    (hlast : l.text.getLast? = some '\n') : l = .code ['\n'] := by
  cases h with
  | literal hq =>
    rcases hq with rfl | rfl <;> simp [Lexeme.text, List.getLast?_cons] at hlast
  | block =>
    rw [Lexeme.text, getLast?_append_of_ne_nil _ (by simp)] at hlast
    exact absurd hlast (by decide)
  | remark _ hline => exact absurd (List.mem_of_getLast? hlast) hline
  | heredoc hopen h =>
    have hname := (heredocOpening?_eq_some_iff.mp hopen).1.isName
    have hcloses := ((heredocClosing?_eq_some_iff hname).mp (closing_of_untilLabel h)).1
    rw [Lexeme.text, getLast?_append_of_ne_nil _ (hcloses.ne_nil hname)] at hlast
    exact absurd (List.mem_of_getLast? hlast) (hcloses.notMem hname)
  | arrows => exact absurd hlast (by decide)
  | code =>
    obtain rfl := Option.some.inj hlast
    rfl

/-- **A text that ends with a line feed is read for itself.** -/
theorem lexed_of_reads {w : Text} {ls : List Lexeme} (h : Reads (w ++ ['\n']) ls [])
    (harrows : .code "<<<" ∉ ls) : Lexed w ls := by
  intro u
  induction ls generalizing w with
  | nil =>
    have := h.eq_append
    simp at this
  | cons l ls ih =>
    simp only [List.mem_cons, not_or] at harrows
    cases h with
    | @next _ v _ _ _ hfirst hmore =>
      have hw := hfirst.eq_append
      by_cases hv : v = []
      · -- nothing follows the lexeme, so it is the line feed
        subst hv
        obtain rfl : ls = [] := by
          cases hmore with
          | done => rfl
          | next hfirst' => exact absurd rfl hfirst'.ne_nil
        rw [List.append_nil] at hw
        obtain rfl := hfirst.eq_lineFeed (by rw [← hw]; simp)
        obtain rfl : w = [] := by simpa [Lexeme.text] using hw
        exact Lexed.nil u
      · obtain ⟨w', rfl, rfl⟩ : ∃ w', w = l.text ++ w' ∧ v = w' ++ ['\n'] := by
          rcases List.append_eq_append_iff.mp hw with ⟨x, hl, hx⟩ | ⟨w', hw', hv'⟩
          · cases x with
            | nil => exact ⟨[], by simpa using hl.symm, by simpa using hx.symm⟩
            | cons c x => simp_all
          · exact ⟨w', hw', hv'⟩
        rw [List.append_assoc] at hfirst ⊢
        have hswap : Swappable ['\n'] ('\n' :: u) := swappable_lineFeed (by simp) u
        exact .next (hfirst.swap hswap fun hl => absurd hl.symm harrows.1) (ih hmore harrows.2)

/-- **A piece laid out anew has the same lexemes** but for blanks. -/
theorem Lexed.relaid {v w : Text} {ls : List Lexeme} (h : Lexed v ls)
    (hr : Relaid ('\n' :: (v ++ ['\n'])) ('\n' :: (w ++ ['\n']))) (harrows : .code "<<<" ∉ ls) :
    ∃ ks, Lexed w ks ∧ SameLexemes ls ks := by
  obtain ⟨ks, hks, hsame⟩ := (h []).relaid_all hr.stripStart_lineFeed harrows
  exact ⟨ks, lexed_of_reads hks (hsame.arrows harrows), hsame⟩

/-! ## Moving lines -/

theorem sameLine_withoutMargin (l : Text) {m : Text} (hm : ∀ c ∈ m, isSpaceTab c = true) :
    SameLine l (withoutMargin m (emptied l)) := by
  have hblank : ∀ {x : Text}, (∀ c ∈ x, isSpaceTab c = true) → ∀ c ∈ x, isBlank c = true :=
    fun hx c hc => isBlank_of_isSpaceTab (hx c hc)
  have no_blank : ∀ c ∈ ([] : Text), isBlank c = true := hblank no_indent
  rw [emptied]
  split
  · rename_i hl
    refine .blank (hblank (List.all_eq_true.mp hl)) ?_
    rw [withoutMargin]
    cases h : after? m [] with
    | none => simp
    | some r =>
      have := eq_append_of_after? h
      obtain ⟨-, rfl⟩ := List.append_eq_nil_iff.mp this.symm
      simp
  · rw [withoutMargin]
    cases h : after? m l with
    | none =>
      simpa using SameLine.ink l no_indent no_indent no_blank
    | some r =>
      rw [eq_append_of_after? h]
      simpa using SameLine.ink r hm no_indent no_blank

/-- Moving a text to the left lays it out anew. -/
theorem relaid_dedent (t : Text) :
    Relaid ('\n' :: (t ++ ['\n'])) ('\n' :: (dedent t ++ ['\n'])) := by
  have hmargin : ∀ c ∈ margin ((lines t).map emptied), isSpaceTab c = true :=
    fun _ hc => isSpaceTab_of_mem_margin hc
  have hlines := relaid_lines (t := t) fun l _ => sameLine_withoutMargin l hmargin
  have hdedent : dedent t = ofLines ((lines t).map fun l =>
      withoutMargin (margin ((lines t).map emptied)) (emptied l)) := by
    simp only [dedent, List.map_map]
    rfl
  rwa [hdedent]

/-- Line feeds in front of a piece and blanks behind it are blanks around line feeds. -/
theorem relaid_ends {a b : Text} (ha : ∀ c ∈ a, c = '\n') (hb : ∀ c ∈ b, isBlank c = true)
    (t : Text) : Relaid ('\n' :: (a ++ (t ++ b) ++ ['\n'])) ('\n' :: (t ++ ['\n'])) := by
  have hbehind := Relaid.of_break (.append hb .lineFeed) .lineFeed rfl
  have hall : ∀ c ∈ '\n' :: a, c = '\n' := by simpa using ha
  have hfront : IsBreak ('\n' :: a) := .of_lineFeeds hall (by simp)
  have := (Relaid.of_break hfront .lineFeed rfl).append ((Relaid.refl t).append hbehind)
  simpa only [List.append_assoc, List.cons_append, List.nil_append] using this

theorem relaid_trimWhile (t : Text) :
    Relaid ('\n' :: (t ++ ['\n'])) ('\n' :: (trimWhile (· == '\n') t ++ ['\n'])) := by
  obtain ⟨u, hsplit, hu⟩ := exists_dropEndWhile (· == '\n') (t.dropWhile (· == '\n'))
  have hfront : ∀ c ∈ t.takeWhile (· == '\n'), c = '\n' := fun c hc => by
    simpa using List.all_eq_true.mp List.all_takeWhile c hc
  have := relaid_ends hfront (fun c hc => isBlank_of_eq_lineFeed (hu c hc))
    (trimWhile (· == '\n') t)
  rwa [trimWhile, ← hsplit, List.takeWhile_append_dropWhile] at this

theorem relaid_stripEnd (t : Text) :
    Relaid ('\n' :: (t ++ ['\n'])) ('\n' :: (stripEnd t ++ ['\n'])) := by
  obtain ⟨u, hsplit, hu⟩ := exists_dropEndWhile isBlank t
  have := relaid_ends (a := []) (by simp) hu (stripEnd t)
  rwa [stripEnd, ← hsplit] at this

/-- Blanks in front of a piece do not count. -/
theorem Lexed.blanks_append {w : Text} {ls : List Lexeme} (h : Lexed w ls) {b : Text}
    (hb : ∀ c ∈ b, isBlank c = true) : ∃ ks, Lexed (b ++ w) ks ∧ SameLexemes ls ks := by
  refine ⟨b.map (fun c => .code [c]) ++ ls, fun u => ?_, ?_⟩
  · have := (reads_blanks hb (w ++ '\n' :: u)).append (h u)
    rwa [← List.append_assoc] at this
  · exact (SameLexemes.of_blanks_right (isBlankCode_of_mem hb)).append (.refl ls)

/-- What stays true of a piece when blanks come to stand in front of it and when it is laid out anew
stays true when a member's text is made of it. -/
theorem memberText_induction {P : Text → Prop}
    (hblanks : ∀ b w, (∀ c ∈ b, isBlank c = true) → P w → P (b ++ w))
    (hrelaid : ∀ v w, Relaid ('\n' :: (v ++ ['\n'])) ('\n' :: (w ++ ['\n'])) → P v → P w)
    {raw : Text} (before : Text) (h : P raw) : P (memberText before raw) := by
  have hbefore : ∀ c ∈ if isBlankText before then before else [], isBlank c = true := by
    split
    · rename_i hb
      exact List.all_eq_true.mp hb
    · simp
  refine hrelaid _ _ (relaid_stripEnd _) (hrelaid _ _ (relaid_trimWhile _) ?_)
  exact hrelaid _ _ (relaid_dedent _) (hblanks _ _ hbefore h)

/-- **A member's text has the lexemes of the piece it was cut from**, but for blanks. -/
theorem lexed_memberText {raw : Text} {ls : List Lexeme} (before : Text) (h : Lexed raw ls)
    (harrows : .code "<<<" ∉ ls) : ∃ ks, Lexed (memberText before raw) ks ∧ SameLexemes ls ks := by
  refine memberText_induction (P := fun w => ∃ ks, Lexed w ks ∧ SameLexemes ls ks) ?_ ?_ before
    ⟨ls, h, .refl ls⟩
  · rintro b w hb ⟨ks, hks, hsame⟩
    obtain ⟨ms, hms, hsame'⟩ := hks.blanks_append hb
    exact ⟨ms, hms, hsame.trans hsame'⟩
  · rintro v w hvw ⟨ks, hks, hsame⟩
    obtain ⟨ms, hms, hsame'⟩ := hks.relaid hvw (hsame.arrows harrows)
    exact ⟨ms, hms, hsame.trans hsame'⟩

/-! ## Comments that do not end -/

/-- A comment begins behind blanks, and nothing ends it. -/
def OpenComment (t : Text) : Prop :=
  ∃ inside, stripStart t = "/*" ++ inside ∧ cutAt? "*/" inside = none

theorem OpenComment.relaid {s t : Text} (h : OpenComment s)
    (hr : Relaid (stripStart s) (stripStart t)) : OpenComment t := by
  obtain ⟨inside, hs, hnone⟩ := h
  rw [hs] at hr
  have hink : Relaid.Ink "/*" := ⟨by decide, by decide⟩
  obtain ⟨inside', ht, hinside⟩ := hr.of_ink hink
  refine ⟨inside', ht, ?_⟩
  rcases cutAt?_relaid (p := "*/") (by decide) (by simp) hinside with ⟨-, h⟩ | ⟨_, _, _, _, h, -⟩
  · exact h
  · rw [hnone] at h
    cases h

/-- The lexemes of such a text end in an error. -/
theorem OpenComment.lexemesFrom_eq {t : Text} (h : OpenComment t) (line : Nat) :
    ∃ line', lexemesFrom line t = .error (Defect.unterminatedComment.atLine line') := by
  obtain ⟨inside, ht, hnone⟩ := h
  have hblanks : ∀ c ∈ t.takeWhile isBlank, isBlank c = true :=
    fun c hc => List.all_eq_true.mp List.all_takeWhile c hc
  have hskip := (reads_blanks hblanks (stripStart t)).lexemesFrom_eq line
  rw [stripStart, List.takeWhile_append_dropWhile] at hskip
  have hstuck : lexeme '/' ('*' :: inside) = .error .unterminatedComment := by
    have hafter := after?_append "/*" inside
    rw [lexeme, if_neg (by decide), show '/' :: '*' :: inside = "/*" ++ inside from rfl, hafter]
    simp only
    rw [hnone]
  change lexemesFrom line t = (lexemesFrom _ (stripStart t)).map _ at hskip
  rw [hskip, ht, show "/*" ++ inside = '/' :: '*' :: inside from rfl, lexemesFrom]
  split
  · rename_i hdefect
    rw [hstuck] at hdefect
    cases hdefect
    exact ⟨_, rfl⟩
  · rename_i hok
    rw [hstuck] at hok
    cases hok

/-- Such a text is not read to its end. -/
theorem OpenComment.not_reads {t : Text} (h : OpenComment t) (ls : List Lexeme) :
    ¬ Reads t ls [] := by
  intro hread
  obtain ⟨line, herror⟩ := h.lexemesFrom_eq 1
  have hok : lexemesFrom 1 t = .ok ls := lexemes_eq_ok_iff.mpr hread
  rw [herror] at hok
  cases hok

/-- A piece of which the reading gets stuck in a comment. -/
def Stuck (w : Text) : Prop :=
  ∃ ls rest, Reads (w ++ ['\n']) ls rest ∧ .code "<<<" ∉ ls ∧ OpenComment rest

theorem Stuck.memberText {raw : Text} (before : Text) (h : Stuck raw) :
    Stuck (memberText before raw) := by
  refine memberText_induction (P := Stuck) ?_ ?_ before h
  · rintro b w hb ⟨ls, rest, hread, harrows, hopen⟩
    have hblanks := isBlankCode_of_mem hb
    refine ⟨b.map (fun c => .code [c]) ++ ls, rest, ?_, ?_, hopen⟩
    · have := (reads_blanks hb (w ++ ['\n'])).append hread
      rwa [← List.append_assoc] at this
    · intro hmem
      rcases List.mem_append.mp hmem with hmem | hmem
      · exact absurd (hblanks _ hmem) (by decide)
      · exact harrows hmem
  · rintro v w hvw ⟨ls, rest, hread, harrows, hopen⟩
    obtain ⟨ks, rest', hks, hsame, hrest⟩ := hread.relaid hvw.stripStart_lineFeed harrows
    exact ⟨ks, rest', hks, hsame.arrows harrows, hopen.relaid hrest⟩

/-- Blanks behind a comment do not end it. -/
theorem OpenComment.of_blanks {t u : Text} (h : OpenComment (t ++ u))
    (hu : ∀ c ∈ u, isBlank c = true) : OpenComment t := by
  obtain ⟨inside, ht, hnone⟩ := h
  have hsolid : stripStart t ≠ [] := by
    intro hnil
    rw [stripStart, List.dropWhile_append_of_pos (List.dropWhile_eq_nil_iff.mp hnil),
      List.dropWhile_eq_nil_iff.mpr hu] at ht
    simp at ht
  have hstrip : stripStart (t ++ u) = stripStart t ++ u := by
    rw [stripStart, List.dropWhile_append, if_neg (by simpa [stripStart] using hsolid)]
    rfl
  rw [hstrip] at ht
  obtain ⟨inside', hopen, rfl⟩ :
      ∃ inside', stripStart t = "/*" ++ inside' ∧ inside = inside' ++ u := by
    rcases List.append_eq_append_iff.mp ht with ⟨x, hx, hblanks⟩ | ⟨inside', ht, hinside⟩
    · cases x with
      | nil => exact ⟨[], by simpa using hx.symm, by simpa using hblanks.symm⟩
      | cons c x =>
        -- a blank would stand in the mark
        have hc : c ∈ ("/*" : Text) := hx ▸ List.mem_append_right _ List.mem_cons_self
        have hsolid : ∀ d ∈ ("/*" : Text), isBlank d = false := by decide
        have := hsolid c hc
        rw [hu c (by simp [hblanks])] at this
        cases this
    · exact ⟨inside', ht, hinside⟩
  refine ⟨inside', hopen, ?_⟩
  rw [Option.eq_none_iff_forall_ne_some]
  rintro ⟨body, rest⟩ hsome
  have := cutAt?_front (p := "*/") (by simp) hsome (rest ++ u)
  rw [← List.append_assoc, ← eq_of_cutAt? hsome, hnone] at this
  cases this

/-- It has no mask. -/
theorem Stuck.not_reads {w : Text} (h : Stuck w) (ls : List Lexeme) : ¬ Reads w ls [] := by
  obtain ⟨ks, rest, hks, -, hopen⟩ := h
  intro hread
  obtain ⟨r, rfl, rfl⟩ : ∃ r, rest = r ++ ['\n'] ∧ w = ks.flatMap Lexeme.text ++ r := by
    rcases List.append_eq_append_iff.mp hks.eq_append with ⟨x, hx, hrest⟩ | ⟨r, hw, hrest⟩
    · cases x with
      | nil => exact ⟨[], by simpa using hrest.symm, by simpa using hx.symm⟩
      | cons c x =>
        -- nothing would be left to be stuck in
        obtain ⟨inside, hinside, -⟩ := hopen
        have : rest = [] := by simp_all
        rw [this] at hinside
        simp [stripStart] at hinside
    · exact ⟨r, hrest, hw⟩
  rw [List.append_assoc] at hks
  have := hks.stop (by simpa using (by decide : isInert '\n' = true))
  obtain ⟨ms, -, hms⟩ := this.rest_of_append hread
  exact (hopen.of_blanks (by decide)).not_reads ms hms

end EntityScaffold.Source
