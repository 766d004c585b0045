import EntityScaffold.Source.Lexeme

/-!
# Masking piece by piece

The mask of a text is found by reading lexemes from the front, so what a piece shows can depend on
what follows.  `Shows t m` says that it does not: in front of any text, `t` shows `m` and leaves
the reading where it was.

* `Shows.append` — pieces put together show what they show.
* `Shows.code`, `Verbatim.shows`, `Shows.comment`, `Shows.attribute` — the pieces there are.
* `mask_of_shows` — a whole text that shows `m` has the mask `m`.
-/

set_option autoImplicit false

namespace EntityScaffold.Source

open Text

/-- In front of any text, `t` consists of lexemes that show `m`. -/
def Shows (t m : Text) : Prop :=
  ∃ ls : List Lexeme, ls.flatMap Lexeme.shown = m ∧ ls.flatMap Lexeme.text = t ∧
    ∀ line u, lexemesFrom line (t ++ u) =
      (lexemesFrom (line + countChar '\n' t) u).map (ls ++ ·)

/-! ## One lexeme -/

theorem lexemesFrom_cons {line : Nat} {c : Char} {t rest : Text} {l : Lexeme}
    (h : lexeme c t = .ok (l, rest)) :
    lexemesFrom line (c :: t) =
      (lexemesFrom (line + countChar '\n' l.text) rest).map (l :: ·) := by
  rw [lexemesFrom]
  split
  · rename_i defect hd
    rw [h] at hd
    cases hd
  · rename_i k r hk
    rw [h] at hk
    cases hk
    rfl

/-- A lexeme that ends in the same place whatever follows shows what it shows. -/
theorem Shows.of_lexeme {c : Char} {t : Text} {l : Lexeme}
    (h : ∀ u, lexeme c (t ++ u) = .ok (l, u)) : Shows (c :: t) l.shown := by
  have htext : l.text = c :: t := by
    have := eq_of_lexeme (h [])
    simpa using this.symm
  refine ⟨[l], by simp, by simpa using htext, fun line u => ?_⟩
  rw [List.cons_append, lexemesFrom_cons (h u), htext]
  rfl

/-! ## Putting pieces together -/

theorem Shows.nil : Shows [] [] := by
  refine ⟨[], rfl, rfl, fun line u => ?_⟩
  cases h : lexemesFrom line u <;> simp [countChar, Except.map, h]

theorem countChar_append (c : Char) (s t : Text) :
    countChar c (s ++ t) = countChar c s + countChar c t := by
  simp [countChar]

theorem Shows.append {s t m n : Text} (hs : Shows s m) (ht : Shows t n) :
    Shows (s ++ t) (m ++ n) := by
  obtain ⟨ks, hks, hks', hk⟩ := hs
  obtain ⟨ls, hls, hls', hl⟩ := ht
  refine ⟨ks ++ ls, by simp [hks, hls], by simp [hks', hls'], fun line u => ?_⟩
  rw [List.append_assoc, hk, hl, countChar_append, ← Nat.add_assoc]
  cases lexemesFrom (line + countChar '\n' s + countChar '\n' t) u <;> simp [Except.map]

theorem Shows.length {t m : Text} (h : Shows t m) : m.length = t.length := by
  obtain ⟨ls, rfl, rfl, _⟩ := h
  simp [List.length_flatMap, Lexeme.length_shown]

theorem lexemes_of_shows {t m : Text} (h : Shows t m) :
    ∃ ls, lexemes t = .ok ls ∧ ls.flatMap Lexeme.shown = m := by
  obtain ⟨ls, hm, _, h⟩ := h
  have hls := h 1 []
  rw [List.append_nil, lexemesFrom] at hls
  simp only [Except.map, List.append_nil] at hls
  exact ⟨ls, hls, hm⟩

/-- **A text that shows `m` has the mask `m`.** -/
theorem mask_of_shows {t m : Text} (h : Shows t m) : mask t = .ok m := by
  obtain ⟨ls, hls, hm⟩ := lexemes_of_shows h
  rw [mask, hls]
  exact congrArg Except.ok hm

/-! ## The pieces there are -/

/-- Whether a character is code by itself, whatever follows. -/
def isCode (c : Char) : Bool := !(c == '\'' || c == '"' || c == '/' || c == '#' || c == '<')

theorem lexeme_of_isCode {c : Char} (h : isCode c = true) (t : Text) :
    lexeme c t = .ok (.code [c], t) := by
  simp only [isCode, Bool.not_eq_true', Bool.or_eq_false_iff, beq_eq_false_iff_ne] at h
  obtain ⟨⟨⟨⟨hquote, hdouble⟩, hslash⟩, hmark⟩, hless⟩ := h
  have hblock : after? "/*" (c :: t) = none := by simp [after?, Ne.symm hslash]
  have hremark : startsWith "//" (c :: t) = false := by simp [startsWith, after?, Ne.symm hslash]
  have hdoc : after? "<<<" (c :: t) = none := by simp [after?, Ne.symm hless]
  have hq : ¬(c = '\'' || c = '"') = true := by simp [hquote, hdouble]
  have hr : ¬(startsWith "//" (c :: t) || (c = '#' && t.head? != some '[')) = true := by
    rw [hremark]
    simp [hmark]
  rw [lexeme, if_neg hq, hblock]
  simp only
  rw [if_neg hr, hdoc]

theorem Shows.code {t : Text} (h : ∀ c ∈ t, isCode c = true) : Shows t t := by
  induction t with
  | nil => exact .nil
  | cons c t ih =>
    have hc : Shows [c] [c] :=
      .of_lexeme (l := .code [c]) fun u => lexeme_of_isCode (h c (by simp)) u
    exact hc.append (ih fun d hd => h d (List.mem_cons_of_mem c hd))

/-- A text that stands for itself between single quotes: no quote is in it, and each backslash
stands in front of another character that is none. -/
inductive Verbatim : Text → Prop
  | nil : Verbatim []
  | char {c : Char} {t : Text} (quote : c ≠ '\'') (backslash : c ≠ '\\') (rest : Verbatim t) :
    Verbatim (c :: t)
  | escape {c : Char} {t : Text} (quote : c ≠ '\'') (backslash : c ≠ '\\') (rest : Verbatim t) :
    Verbatim ('\\' :: c :: t)

theorem Verbatim.of_notMem {t : Text} (hq : '\'' ∉ t) (hb : '\\' ∉ t) : Verbatim t := by
  induction t with
  | nil => exact .nil
  | cons c t ih =>
    simp only [List.mem_cons, not_or] at hq hb
    exact .char (Ne.symm hq.1) (Ne.symm hb.1) (ih hq.2 hb.2)

theorem Verbatim.untilQuote_eq {t : Text} (h : Verbatim t) (u : Text) :
    untilQuote '\'' (t ++ '\'' :: u) = some (t, u) := by
  induction h with
  | nil => cases u <;> simp [untilQuote]
  | @char c t hquote hbackslash _ ih =>
    rw [List.cons_append, untilQuote]
    · rw [if_neg hquote, ih]
      rfl
    · exact fun _ _ hc _ => hbackslash hc
  | escape _ _ _ ih =>
    rw [List.cons_append, List.cons_append, untilQuote, ih]
    rfl

/-- A string between single quotes shows its quotes. -/
theorem Verbatim.shows {t : Text} (h : Verbatim t) :
    Shows ('\'' :: (t ++ ['\''])) ('\'' :: (hide t ++ ['\''])) := by
  refine Shows.of_lexeme (l := .literal '\'' t) fun u => ?_
  rw [List.append_assoc, List.singleton_append]
  simp [lexeme, h.untilQuote_eq u]

theorem cutAt?_close {body : Text} (h : '/' ∉ body) (u : Text) :
    cutAt? "*/" (body ++ ("*/" ++ u)) = some (body, u) := by
  induction body with
  | nil => simp [cutAt?, after?]
  | cons c body ih =>
    simp only [List.mem_cons, not_or] at h
    -- a closing mark that begins at `c` would have its slash within the body or behind its star
    have hnone : after? "*/" (c :: (body ++ ("*/" ++ u))) = none := by
      cases body with
      | nil => by_cases hc : '*' = c <;> simp [after?, hc]
      | cons d body =>
        have hd : '/' ≠ d := by
          rintro rfl
          exact h.2 List.mem_cons_self
        by_cases hc : '*' = c <;> simp [after?, hc, hd]
    rw [List.cons_append, cutAt?, hnone]
    simp only
    rw [ih h.2]
    rfl

/-- A block comment shows nothing. -/
theorem Shows.comment {body : Text} (h : '/' ∉ body) :
    Shows ("/*" ++ body ++ "*/") (hide ("/*" ++ body ++ "*/")) := by
  refine Shows.of_lexeme (c := '/') (t := '*' :: (body ++ "*/")) (l := .block body) fun u => ?_
  have hcut := cutAt?_close h u
  have hafter : after? "/*" ('/' :: '*' :: (body ++ ("*/" ++ u))) = some (body ++ ("*/" ++ u)) :=
    after?_append "/*" _
  have hq : ¬('/' = '\'' || '/' = '"') = true := by decide
  rw [List.cons_append, List.append_assoc, lexeme, if_neg hq, hafter]
  simp only
  rw [hcut]

/-- The mark that begins an attribute group is code. -/
theorem Shows.attribute : Shows "#[" "#[" := by
  refine ⟨[.code ['#'], .code ['[']], rfl, rfl, fun line u => ?_⟩
  have hmark : lexeme '#' ('[' :: u) = .ok (.code ['#'], '[' :: u) := by
    simp [lexeme, startsWith, after?]
  have hbracket : lexeme '[' u = .ok (.code ['['], u) := lexeme_of_isCode (by decide) u
  change lexemesFrom line ('#' :: '[' :: u) = _
  rw [lexemesFrom_cons hmark, lexemesFrom_cons hbracket]
  cases h : lexemesFrom (line + countChar '\n' ("#[" : Text)) u <;>
    simp_all [Lexeme.text, countChar, Except.map]

end EntityScaffold.Source
