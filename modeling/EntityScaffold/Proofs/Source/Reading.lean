import EntityScaffold.Proofs.Source.FirstLexeme

/-!
# Reading one lexeme after the other

`Reads t ls rest` says that the lexemes `ls` are read off `t` one after the other, with `rest`
behind them.

* `lexemes_eq_ok_iff` — the lexemes of a text are those read off it to its end.
* `Reads.swap` — the same lexemes in front of another rest.
* `Reads.cut`, `mask_cut` — a text may be cut behind a semicolon or a brace that its mask shows:
  both parts have the lexemes and the mask that they have within the text.
-/

set_option autoImplicit false

namespace EntityScaffold.Source

open Text

/-! ## Lexemes one after the other -/

/-- The lexemes are read off the first text, and the second one is what follows them. -/
inductive Reads : Text → List Lexeme → Text → Prop where
  | done (t : Text) : Reads t [] t
  | next {t u rest : Text} {l : Lexeme} {ls : List Lexeme} (first : First t l u)
      (more : Reads u ls rest) : Reads t (l :: ls) rest

namespace Reads

variable {s t u v rest : Text} {ks ls ms : List Lexeme}

theorem append (h : Reads s ks t) (h' : Reads t ls rest) : Reads s (ks ++ ls) rest := by
  induction h with
  | done => exact h'
  | next hfirst _ ih => exact .next hfirst (ih h')

theorem eq_append (h : Reads t ls rest) : t = ls.flatMap Lexeme.text ++ rest := by
  induction h with
  | done => rfl
  | next hfirst _ ih => rw [List.flatMap_cons, List.append_assoc, ← ih, ← hfirst.eq_append]

/-- Two readings of a text agree as far as the shorter one goes. -/
theorem rest_of_append (h : Reads t ks u) (h' : Reads t ls []) :
    ∃ ms, ls = ks ++ ms ∧ Reads u ms [] := by
  induction h generalizing ls with
  | done t => exact ⟨ls, rfl, h'⟩
  | next hfirst _ ih =>
    cases h' with
    | done => exact absurd rfl hfirst.ne_nil
    | next hfirst' hmore =>
      obtain ⟨rfl, rfl⟩ := hfirst.unique hfirst'
      obtain ⟨ms, rfl, hms⟩ := ih hmore
      exact ⟨ms, rfl, hms⟩

theorem lexemesFrom_eq (line : Nat) (h : Reads t ls rest) :
    lexemesFrom line t =
      (lexemesFrom (line + countChar '\n' (ls.flatMap Lexeme.text)) rest).map (ls ++ ·) := by
  induction h generalizing line with
  | done t => cases h : lexemesFrom line t <;> simp [countChar, Except.map, h]
  | @next t u rest l ls hfirst _ ih =>
    obtain ⟨c, t, rfl⟩ := List.exists_cons_of_ne_nil hfirst.ne_nil
    rw [lexemesFrom_cons (lexeme_of_first hfirst), ih, List.flatMap_cons, countChar_append,
      ← Nat.add_assoc]
    cases lexemesFrom (line + countChar '\n' l.text +
      countChar '\n' (ls.flatMap Lexeme.text)) rest <;> rfl

end Reads

theorem reads_of_lexemesFrom {line : Nat} {t : Text} {ls : List Lexeme}
    (h : lexemesFrom line t = .ok ls) : Reads t ls [] := by
  fun_induction lexemesFrom line t generalizing ls with
  | case1 =>
    cases h
    exact .done []
  | case2 => cases h
  | case3 line c t l rest hl ih =>
    cases hr : lexemesFrom (line + countChar '\n' l.text) rest with
    | error e => simp [hr, Except.map] at h
    | ok more =>
      simp only [hr, Except.map, Except.ok.injEq] at h
      subst h
      exact .next (first_of_lexeme hl) (ih hr)

/-- **The lexemes of a text are those read off it to its end.** -/
theorem lexemes_eq_ok_iff {t : Text} {ls : List Lexeme} : lexemes t = .ok ls ↔ Reads t ls [] := by
  constructor
  · exact reads_of_lexemesFrom
  · intro h
    rw [lexemes, h.lexemesFrom_eq, lexemesFrom]
    simp [Except.map]

/-- **Lexemes are the same in front of another rest.** -/
theorem Reads.swap {s u v : Text} {ls : List Lexeme}
    (h : Reads (ls.flatMap Lexeme.text ++ (s ++ u)) ls (s ++ u)) (huv : Swappable u v)
    (harrows : .code "<<<" ∈ ls → ∀ w, heredocOpening? (w ++ u) = none →
      heredocOpening? (w ++ v) = none) :
    Reads (ls.flatMap Lexeme.text ++ (s ++ v)) ls (s ++ v) := by
  generalize hx : ls.flatMap Lexeme.text ++ (s ++ u) = x at h
  generalize hrest : s ++ u = rest at h
  induction h with
  | done => exact .done _
  | @next t w rest l ls hfirst hmore ih =>
    subst hrest
    have hw := hmore.eq_append
    have ht := hfirst.eq_append
    subst hw ht
    have hswap := First.swap (s := ls.flatMap Lexeme.text ++ s) (v := v)
      (by simpa only [List.append_assoc] using hfirst) huv fun hl hnone => by
        rw [List.append_assoc] at hnone ⊢
        have := harrows (by simp [hl]) (ls.flatMap Lexeme.text ++ s)
        rw [List.append_assoc, List.append_assoc] at this
        exact this hnone
    rw [List.flatMap_cons, List.append_assoc]
    exact .next (by simpa only [List.append_assoc] using hswap)
      (ih (fun hmem => harrows (List.mem_cons_of_mem _ hmem)) rfl rfl)

/-- A heredoc that begins in a text begins in front of more. -/
theorem heredocOpening?_of_append {s u : Text} (h : heredocOpening? (s ++ u) = none) :
    heredocOpening? s = none := by
  rw [Option.eq_none_iff_forall_ne_some]
  rintro ⟨opening, label, inside⟩ hopen
  obtain ⟨hopens, rfl⟩ := heredocOpening?_eq_some_iff.mp hopen
  rw [heredocOpening?_eq_some_iff.mpr ⟨hopens, List.append_assoc opening inside u⟩] at h
  cases h

theorem swappable_nil {u : Text} (hu : ∀ c ∈ u.head?, isInert c = true) : Swappable u [] :=
  ⟨hu, by simp, by simp⟩

/-- **Lexemes are the same where nothing follows** that could make them longer. -/
theorem Reads.stop {s u : Text} {ls : List Lexeme}
    (h : Reads (ls.flatMap Lexeme.text ++ (s ++ u)) ls (s ++ u))
    (hu : ∀ c ∈ u.head?, isInert c = true) : Reads (ls.flatMap Lexeme.text ++ s) ls s := by
  have := h.swap (swappable_nil hu) fun _ w hnone => by
    rw [List.append_nil]
    exact heredocOpening?_of_append hnone
  simpa only [List.append_nil] using this

/-! ## Cutting behind a visible mark -/

/-- The marks behind which a class file is cut. -/
def isMark (c : Char) : Bool := c == ';' || c == '\x7b' || c == '\x7d'

theorem eq_of_isMark {c : Char} (h : isMark c = true) : c = ';' ∨ c = '\x7b' ∨ c = '\x7d' := by
  simpa [isMark, or_assoc] using h

/-- No mark stands in the lines around a heredoc. -/
theorem not_isMark {c : Char}
    (h : isWord c = true ∨ isSpaceTab c = true ∨ c ∈ ("\'\"\r\n" : Text)) :
    isMark c = false := by
  cases hc : isMark c with
  | false => rfl
  | true => rcases eq_of_isMark hc with rfl | rfl | rfl <;> revert h <;> decide

theorem notMem_hide {d : Char} (h : isMark d = true) (t : Text) : d ∉ hide t := by
  rw [hide, List.mem_map]
  rintro ⟨c, -, rfl⟩
  split at h <;> revert h <;> decide

theorem notMem_arrows {d : Char} (h : isMark d = true) : d ∉ ("<<<" : Text) := by
  rcases eq_of_isMark h with rfl | rfl | rfl <;> decide

theorem OpensHeredoc.not_isMark {label opening : Text} (h : OpensHeredoc label opening) {c : Char}
    (hc : c ∈ opening) : isMark c = false := by
  obtain ⟨hblanks, hquote, hlabel, hending⟩ := h
  simp only [List.mem_append] at hc
  refine Source.not_isMark ?_
  have hq : ∀ {q : Text}, (q = [] ∨ q = ['\''] ∨ q = ['"']) → c ∈ q → c ∈ ("\'\"\r\n" : Text) := by
    rintro q (rfl | rfl | rfl) h <;> simp_all
  rcases hc with hc | hc | hc | hc | hc
  · exact .inr (.inl (hblanks c hc))
  · exact .inr (.inr (hq hquote hc))
  · exact .inl (hlabel.isWord c hc)
  · exact .inr (.inr (hq hquote hc))
  · refine .inr (.inr ?_)
    rcases hending with rfl | rfl <;> simp_all

theorem ClosesHeredoc.not_isMark {label closing : Text} (hlabel : IsName label)
    (h : ClosesHeredoc label closing) {c : Char} (hc : c ∈ closing) : isMark c = false := by
  obtain ⟨blanks, hblanks, rfl⟩ := h
  refine Source.not_isMark ?_
  rcases List.mem_append.mp hc with hc | hc
  · exact .inr (.inl (hblanks c hc))
  · exact .inl (hlabel.isWord c hc)

/-- The mask shows a mark of code only. -/
theorem First.eq_code {t rest : Text} {l : Lexeme} {d : Char} (h : First t l rest)
    (hd : isMark d = true) (hmem : d ∈ l.shown) : l = .code [d] := by
  cases h with
  | @literal q _ body _ hq h =>
    have hne : d ≠ q := by
      rintro rfl
      rcases hq with rfl | rfl <;> revert hd <;> decide
    simp [Lexeme.shown, hne, notMem_hide hd] at hmem
  | block => exact absurd hmem (notMem_hide hd _)
  | remark => exact absurd hmem (notMem_hide hd _)
  | @heredoc _ opening label _ body closing _ hopen h =>
    have hopens := (heredocOpening?_eq_some_iff.mp hopen).1
    have hcloses := ((heredocClosing?_eq_some_iff hopens.isName).mp (closing_of_untilLabel h)).1
    simp only [Lexeme.shown, List.mem_append] at hmem
    rcases hmem with ((hmem | hmem) | hmem) | hmem
    · exact absurd hmem (notMem_arrows hd)
    · rw [hopens.not_isMark hmem] at hd
      cases hd
    · exact absurd hmem (notMem_hide hd _)
    · rw [hcloses.not_isMark hopens.isName hmem] at hd
      cases hd
  | arrows => exact absurd hmem (notMem_arrows hd)
  | @code c _ _ =>
    rw [Lexeme.shown, List.mem_singleton] at hmem
    rw [hmem]

/-- **The lexemes of a text may be cut behind a mark that its mask shows.** -/
theorem Reads.cut {a b ma mb : Text} {d e : Char} {ls : List Lexeme} (h : Reads (a ++ e :: b) ls [])
    (hd : isMark d = true) (hshown : ls.flatMap Lexeme.shown = ma ++ d :: mb)
    (hlen : ma.length = a.length) :
    ∃ ks ms, ls = ks ++ .code [d] :: ms ∧ e = d ∧ Reads (a ++ d :: b) ks (d :: b) ∧
      Reads b ms [] ∧ ks.flatMap Lexeme.shown = ma ∧ ms.flatMap Lexeme.shown = mb := by
  induction ls generalizing a ma with
  | nil => simp at hshown
  | cons l ls ih =>
    cases h with
    | @next _ u _ _ _ hfirst hmore =>
      have hx := hfirst.eq_append
      rw [List.flatMap_cons] at hshown
      have hsize := l.length_shown
      obtain ⟨ma', rfl, hrest⟩ | ⟨m', hl⟩ :
          (∃ ma', ma = l.shown ++ ma' ∧ ls.flatMap Lexeme.shown = ma' ++ d :: mb) ∨
            ∃ m', l.shown = ma ++ d :: m' := by
        rcases List.append_eq_append_iff.mp hshown with ⟨ma', hma, hrest⟩ | ⟨m', hl, hrest⟩
        · exact .inl ⟨ma', hma, hrest⟩
        · cases m' with
          | nil => exact .inl ⟨[], by simpa using hl.symm, by simpa using hrest.symm⟩
          | cons c m' =>
            obtain ⟨rfl, -⟩ := List.cons.inj hrest
            exact .inr ⟨m', hl⟩
      · -- the mark stands behind this lexeme
        obtain ⟨a', rfl, rfl⟩ : ∃ a', a = l.text ++ a' ∧ u = a' ++ e :: b := by
          rcases List.append_eq_append_iff.mp hx with ⟨a', ha, hu⟩ | ⟨a', ha, hu⟩
          · have hnil : a' = [] := by
              have := congrArg List.length ha
              simp at this hlen
              exact List.length_eq_zero_iff.mp (by omega)
            subst hnil
            exact ⟨[], by simpa using ha.symm, by simpa using hu.symm⟩
          · exact ⟨a', ha, hu⟩
        obtain ⟨ks, ms, rfl, rfl, hks, hms, rfl, rfl⟩ := ih hmore hrest (by simp at hlen; omega)
        exact ⟨l :: ks, ms, rfl, rfl, .next hfirst hks, hms, rfl, rfl⟩
      · -- it is this lexeme
        have hcode := hfirst.eq_code hd (by simp [hl])
        subst hcode
        obtain ⟨rfl, rfl⟩ : ma = [] ∧ m' = [] := by
          have := congrArg List.length hl
          simp [Lexeme.shown] at this
          exact ⟨List.length_eq_zero_iff.mp (by omega), List.length_eq_zero_iff.mp (by omega)⟩
        obtain rfl : a = [] := List.length_eq_zero_iff.mp hlen.symm
        obtain ⟨rfl, rfl⟩ : e = d ∧ b = u := by simpa [Lexeme.text] using hx
        have hrest : ls.flatMap Lexeme.shown = mb := by simpa [Lexeme.shown] using hshown
        exact ⟨[], ls, rfl, rfl, .done _, hmore, rfl, hrest⟩

theorem isInert_of_isMark {c : Char} (h : isMark c = true) : isInert c = true := by
  rcases eq_of_isMark h with rfl | rfl | rfl <;> decide

/-- Whatever follows a mark may be replaced. -/
theorem swappable_of_isMark {d : Char} (hd : isMark d = true) (u v : Text) :
    Swappable (d :: u) (d :: v) where
  old := by simpa using isInert_of_isMark hd
  new := by simpa using isInert_of_isMark hd
  line := by simp

/-- No opening line of a heredoc goes on behind a mark. -/
theorem heredocOpening?_mark {s u : Text} {d : Char} (hd : isMark d = true)
    (h : heredocOpening? (s ++ d :: u) = none) (v : Text) :
    heredocOpening? (s ++ d :: v) = none := by
  rw [Option.eq_none_iff_forall_ne_some]
  rintro ⟨opening, label, inside⟩ hopen
  obtain ⟨hopens, heq⟩ := heredocOpening?_eq_some_iff.mp hopen
  obtain ⟨s', rfl⟩ : ∃ s', s = opening ++ s' := by
    rcases List.append_eq_append_iff.mp heq with ⟨o, rfl, ho⟩ | ⟨s', hs, -⟩
    · cases o with
      | nil => exact ⟨[], by simp⟩
      | cons c o =>
        obtain ⟨rfl, -⟩ := List.cons.inj ho
        have := hopens.not_isMark (c := d) (by simp)
        rw [hd] at this
        cases this
    · exact ⟨s', hs⟩
  rw [heredocOpening?_eq_some_iff.mpr ⟨hopens, List.append_assoc opening s' (d :: u)⟩] at h
  cases h

/-- Up to a mark of code, the lexemes are the same whatever follows the mark. -/
theorem Reads.swap_mark {a u : Text} {d : Char} {ls : List Lexeme} (hd : isMark d = true)
    (h : Reads (a ++ d :: u) ls (d :: u)) (v : Text) : Reads (a ++ d :: v) ls (d :: v) := by
  obtain rfl : a = ls.flatMap Lexeme.text := List.append_cancel_right h.eq_append
  exact Reads.swap (s := []) h (swappable_of_isMark hd u v) fun _ w hnone =>
    heredocOpening?_mark hd hnone v

/-- Up to a mark of code, a text is read for itself. -/
theorem Reads.stop_mark {a u : Text} {d : Char} {ls : List Lexeme} (hd : isMark d = true)
    (h : Reads (a ++ d :: u) ls (d :: u)) : Reads a ls [] := by
  obtain rfl : a = ls.flatMap Lexeme.text := List.append_cancel_right h.eq_append
  have := Reads.stop (s := []) h (by simpa using isInert_of_isMark hd)
  rwa [List.append_nil] at this

theorem first_of_isMark {d : Char} (hd : isMark d = true) (t : Text) :
    First (d :: t) (.code [d]) t := by
  refine first_of_lexeme (lexeme_of_isCode ?_ t)
  rcases eq_of_isMark hd with rfl | rfl | rfl <;> decide

theorem shows_of_reads {t : Text} {ls : List Lexeme} (h : ∀ u, Reads (t ++ u) ls u) :
    Shows t (ls.flatMap Lexeme.shown) := by
  have htext : ls.flatMap Lexeme.text = t := by
    have := (h []).eq_append
    simpa using this.symm
  refine ⟨ls, rfl, htext, fun line u => ?_⟩
  rw [(h u).lexemesFrom_eq, htext]

/-- **A mask may be cut behind a mark that it shows**: the text shows the mark there, what stands
before shows the same in front of anything, and what stands behind has the rest of the mask. -/
theorem mask_cut {a b ma mb : Text} {d e : Char} (h : mask (a ++ e :: b) = .ok (ma ++ d :: mb))
    (hlen : ma.length = a.length) (hd : isMark d = true) :
    e = d ∧ Shows (a ++ [d]) (ma ++ [d]) ∧ mask b = .ok mb := by
  rw [mask] at h
  cases hls : lexemes (a ++ e :: b) with
  | error err => simp [hls, Except.map] at h
  | ok ls =>
    simp only [hls, Except.map, Except.ok.injEq] at h
    obtain ⟨ks, ms, rfl, rfl, hks, hms, rfl, rfl⟩ := (lexemes_eq_ok_iff.mp hls).cut hd h hlen
    have hfront : ∀ u, Reads (a ++ [e] ++ u) (ks ++ [.code [e]]) u := by
      intro u
      rw [List.append_assoc]
      exact (hks.swap_mark hd u).append (.next (first_of_isMark hd u) (.done u))
    refine ⟨rfl, ?_, ?_⟩
    · have := shows_of_reads hfront
      rwa [List.flatMap_append] at this
    · rw [mask, lexemes_eq_ok_iff.mpr hms]
      rfl

end EntityScaffold.Source
