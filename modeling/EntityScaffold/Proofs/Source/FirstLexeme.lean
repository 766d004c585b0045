import EntityScaffold.Proofs.Source.Delimiters

/-!
# The first lexeme of a text

`First t l rest` describes what the first lexeme of a text is and what follows it.  How far a lexeme
goes depends on what follows only as far as the second half of a mark, a word character behind the
label of a heredoc or the end of a line are looked for.

* `first_iff` — reading a lexeme follows the description.
* `First.swap` — the same lexeme in front of another rest.
-/

set_option autoImplicit false

namespace EntityScaffold.Source

open Text

/-! ## The description -/

/-- Whether a comment begins here that ends with its line: behind two slashes, or behind a mark that
does not open an attribute. -/
def opensRemark : Text → Bool
  | [] => false
  | [c] => c == '#'
  | c :: d :: _ => (c == '/' && d == '/') || (c == '#' && d != '[')

/-- Whether `c` is code in front of `t`: no longer lexeme begins with it. -/
structure StandsAlone (c : Char) (t : Text) : Prop where
  single : c ≠ '\''
  double : c ≠ '"'
  block : after? "/*" (c :: t) = none
  remark : opensRemark (c :: t) = false
  heredoc : after? "<<<" (c :: t) = none

/-- `l` is the first lexeme of a text, and the last argument is what follows it. -/
inductive First : Text → Lexeme → Text → Prop where
  | literal {q : Char} {t body rest : Text} (hq : q = '\'' ∨ q = '"')
      (h : untilQuote q t = some (body, rest)) : First (q :: t) (.literal q body) rest
  | block {t body rest : Text} (h : cutAt? "*/" t = some (body, rest)) :
      First ('/' :: '*' :: t) (.block body) rest
  | remark {t rest : Text} (hopen : opensRemark t = true) (hline : '\n' ∉ t)
      (hend : ∀ c ∈ rest.head?, c = '\n') : First (t ++ rest) (.remark t) rest
  | heredoc {t opening label inside body closing rest : Text}
      (hopen : heredocOpening? t = some (opening, label, inside))
      (h : untilLabel label true inside = some (body, closing, rest)) :
      First ('<' :: '<' :: '<' :: t) (.heredoc ("<<<" ++ opening) body closing) rest
  /-- Three angle brackets behind which no heredoc begins. -/
  | arrows {t : Text} (h : heredocOpening? t = none) :
      First ('<' :: '<' :: '<' :: t) (.code "<<<") t
  | code {c : Char} {t : Text} (h : StandsAlone c t) : First (c :: t) (.code [c]) t

theorem opensRemark_cons (c : Char) (t : Text) :
    opensRemark (c :: t) = (startsWith "//" (c :: t) || (c = '#' && t.head? != some '[')) := by
  cases t with
  | nil => by_cases h : '/' = c <;> simp [opensRemark, startsWith, after?, h, Bool.beq_eq_decide_eq]
  | cons d t =>
    have hslashes : startsWith "//" (c :: d :: t) = (c == '/' && d == '/') := by
      by_cases hc : c = '/'
      · by_cases hd : d = '/'
        · simp [startsWith, after?, hc, hd]
        · simp [startsWith, after?, hc, hd, Ne.symm hd]
      · simp [startsWith, after?, hc, Ne.symm hc]
    rw [opensRemark, hslashes, Bool.beq_eq_decide_eq c '#']
    simp [bne]

/-- Whether a comment begins is seen on its own line. -/
theorem opensRemark_append {t : Text} (hline : '\n' ∉ t) {rest : Text}
    (hend : ∀ c ∈ rest.head?, c = '\n') : opensRemark (t ++ rest) = opensRemark t := by
  cases rest with
  | nil => rw [List.append_nil]
  | cons e rest =>
    obtain rfl : e = '\n' := hend e (by simp)
    match t with
    | [] => cases rest <;> simp [opensRemark]
    | [c] => simp [opensRemark]
    | c :: d :: u => rfl

theorem head?_dropWhile_line (t : Text) : ∀ c ∈ (t.dropWhile (· != '\n')).head?, c = '\n' := by
  intro c hc
  simpa using head?_dropWhile (· != '\n') t c hc

theorem notMem_takeWhile_line (t : Text) : '\n' ∉ t.takeWhile (· != '\n') := by
  intro h
  simpa using List.all_eq_true.mp List.all_takeWhile _ h

theorem first_of_lexeme {c : Char} {t rest : Text} {l : Lexeme}
    (h : lexeme c t = .ok (l, rest)) : First (c :: t) l rest := by
  rw [lexeme] at h
  split at h
  · rename_i hq
    split at h
    · rename_i hbody
      cases h
      exact .literal (by simpa using hq) hbody
    · cases h
  · rename_i hq
    split at h
    · rename_i inside hinside
      have ht := eq_append_of_after? hinside
      split at h
      · rename_i hbody
        cases h
        rw [ht]
        exact .block hbody
      · cases h
    · rename_i hblock
      rw [← opensRemark_cons] at h
      split at h
      · rename_i hremark
        cases h
        have hline := notMem_takeWhile_line (c :: t)
        have hend := head?_dropWhile_line (c :: t)
        have hsplit : (c :: t).takeWhile (· != '\n') ++ (c :: t).dropWhile (· != '\n') = c :: t :=
          List.takeWhile_append_dropWhile
        have hopen := opensRemark_append hline hend
        rw [hsplit, hremark] at hopen
        have := First.remark hopen.symm hline hend
        rwa [hsplit] at this
      · rename_i hremark
        split at h
        · rename_i behind hbehind
          have ht := eq_append_of_after? hbehind
          rw [ht]
          split at h
          · rename_i hopen
            cases h
            exact .arrows hopen
          · rename_i hopen
            split at h
            · rename_i hbody
              cases h
              exact .heredoc hopen hbody
            · cases h
        · rename_i hheredoc
          cases h
          simp only [Bool.or_eq_true, decide_eq_true_eq, not_or] at hq
          exact .code ⟨hq.1, hq.2, hblock, by simpa using hremark, hheredoc⟩

/-- Three angles open a heredoc, or stand for themselves. -/
theorem lexeme_arrows (t : Text) : lexeme '<' ('<' :: '<' :: t) = match heredocOpening? t with
    | none => .ok (.code "<<<", t)
    | some (opening, label, inside) =>
      match untilLabel label true inside with
      | some (body, closing, rest) => .ok (.heredoc ("<<<" ++ opening) body closing, rest)
      | none => .error .unterminatedHeredoc := by
  have hangle : ¬ ('<' = '\'' || '<' = '"') = true := by decide
  have hafter := after?_append "<<<" t
  rw [lexeme, if_neg hangle, show '<' :: '<' :: '<' :: t = "<<<" ++ t from rfl, hafter]
  rfl

theorem lexeme_of_first {c : Char} {t rest : Text} {l : Lexeme} (h : First (c :: t) l rest) :
    lexeme c t = .ok (l, rest) := by
  have hslash : ¬ ('/' = '\'' || '/' = '"') = true := by decide
  generalize hx : c :: t = x at h
  cases h with
  | literal hq h =>
    cases hx
    rw [lexeme, if_pos (by simpa using hq), h]
  | @block t _ _ h =>
    cases hx
    have hafter := after?_append "/*" t
    rw [lexeme, if_neg hslash, show '/' :: '*' :: t = "/*" ++ t from rfl, hafter]
    simp only
    rw [h]
  | @remark r rest hopen hline hend =>
    obtain ⟨d, u, rfl⟩ : ∃ d u, r = d :: u :=
      List.exists_cons_of_ne_nil (by rintro rfl; cases hopen)
    rw [List.cons_append, List.cons.injEq] at hx
    obtain ⟨rfl, rfl⟩ := hx
    have hall : opensRemark (c :: (u ++ rest)) = true := by
      rw [← List.cons_append, opensRemark_append hline hend, hopen]
    have hquote : ¬ (c = '\'' || c = '"') = true := by
      intro hq
      rcases (by simpa using hq : c = '\'' ∨ c = '"') with rfl | rfl <;> cases u <;>
        simp [opensRemark] at hopen
    have hblock : after? "/*" (c :: (u ++ rest)) = none := by
      rw [Option.eq_none_iff_forall_ne_some]
      intro v hv
      rw [eq_append_of_after? hv] at hall
      cases hall
    rw [lexeme, if_neg hquote, hblock]
    simp only
    have hall' : ∀ d ∈ c :: u, (d != '\n') = true := by
      intro d hd
      simpa using fun h : d = '\n' => hline (h ▸ hd)
    rw [← opensRemark_cons, if_pos hall, ← List.cons_append, List.takeWhile_append_of_pos hall',
      List.dropWhile_append_of_pos hall']
    cases rest with
    | nil => simp
    | cons e rest => simp [hend e (by simp)]
  | @heredoc t _ _ _ _ _ _ hopen h =>
    cases hx
    rw [lexeme_arrows, hopen]
    simp only
    rw [h]
  | @arrows t h =>
    cases hx
    rw [lexeme_arrows, h]
  | code h =>
    cases hx
    have hquote : ¬ (c = '\'' || c = '"') = true := by simp [h.single, h.double]
    have hremark := h.remark
    rw [opensRemark_cons] at hremark
    rw [lexeme, if_neg hquote, h.block]
    simp only
    rw [hremark, if_neg Bool.false_ne_true, h.heredoc]

/-- **Reading a lexeme follows the description.** -/
theorem first_iff {c : Char} {t rest : Text} {l : Lexeme} :
    lexeme c t = .ok (l, rest) ↔ First (c :: t) l rest :=
  ⟨first_of_lexeme, lexeme_of_first⟩

theorem First.eq_append {t rest : Text} {l : Lexeme} (h : First t l rest) : t = l.text ++ rest := by
  cases t with
  | nil =>
    generalize hx : ([] : Text) = x at h
    cases h with
    | remark hopen =>
      obtain ⟨rfl, rfl⟩ := List.append_eq_nil_iff.mp hx.symm
      cases hopen
    | _ => cases hx
  | cons c t => exact eq_of_lexeme (lexeme_of_first h)

theorem First.text_ne_nil {t rest : Text} {l : Lexeme} (h : First t l rest) : l.text ≠ [] := by
  cases h with
  | @remark t _ hopen =>
    rintro rfl
    cases hopen
  | _ => simp [Lexeme.text]

theorem First.ne_nil {t rest : Text} {l : Lexeme} (h : First t l rest) : t ≠ [] := by
  intro ht
  rw [h.eq_append, List.append_eq_nil_iff] at ht
  exact h.text_ne_nil ht.1

/-- The first lexeme is determined by the text. -/
theorem First.unique {t u v : Text} {l k : Lexeme} (h : First t l u) (h' : First t k v) :
    l = k ∧ u = v := by
  obtain ⟨c, t, rfl⟩ := List.exists_cons_of_ne_nil h.ne_nil
  have := (lexeme_of_first h).symm.trans (lexeme_of_first h')
  simpa using this

/-! ## Another rest behind a lexeme -/

/-- Whether a character that follows a lexeme never makes it longer: it is no word character and
begins no second half of a mark. -/
def isInert (c : Char) : Bool := !(isWord c || c == '*' || c == '/' || c == '<' || c == '[')

theorem isWord_of_isInert {c : Char} (h : isInert c = true) : isWord c = false := by
  simp only [isInert, Bool.not_eq_true', Bool.or_eq_false_iff] at h
  exact h.1.1.1.1

theorem notMem_marks_of_isInert {c : Char} (h : isInert c = true) :
    c ∉ ("/*" : Text) ∧ c ∉ ("<<<" : Text) := by
  simp only [isInert, Bool.not_eq_true', Bool.or_eq_false_iff, beq_eq_false_iff_ne] at h
  simp [h]

/-- What a text may be replaced by behind lexemes: neither it nor the other makes them longer, and a
comment that ends with its line ends here too. -/
structure Swappable (u v : Text) : Prop where
  old : ∀ c ∈ u.head?, isInert c = true
  new : ∀ c ∈ v.head?, isInert c = true
  line : (∀ c ∈ u.head?, c = '\n') → ∀ c ∈ v.head?, c = '\n'

theorem head?_append_swap {p : Char → Prop} (s : Text) {u v : Text} (h : ∀ c ∈ (s ++ u).head?, p c)
    (huv : s = [] → ∀ c ∈ v.head?, p c) : ∀ c ∈ (s ++ v).head?, p c := by
  cases s with
  | nil => exact huv rfl
  | cons d s => exact h

/-- **A lexeme is the same in front of another rest.** -/
theorem First.swap {s u v : Text} {l : Lexeme} (h : First (l.text ++ (s ++ u)) l (s ++ u))
    (huv : Swappable u v)
    (harrows : l = .code "<<<" → heredocOpening? (s ++ u) = none →
      heredocOpening? (s ++ v) = none) :
    First (l.text ++ (s ++ v)) l (s ++ v) := by
  generalize hx : l.text ++ (s ++ u) = x at h
  generalize hrest : s ++ u = rest at h
  cases h with
  | literal hq h =>
    have hne : ∀ {q : Char}, q = '\'' ∨ q = '"' → q ≠ '\\' := by
      rintro q (rfl | rfl) <;> decide
    have := First.literal hq (untilQuote_front (hne hq) h (s ++ v))
    simpa [Lexeme.text] using this
  | block h =>
    have := First.block (cutAt?_front (by simp) h (s ++ v))
    simpa [Lexeme.text] using this
  | remark hopen hline hend =>
    refine .remark hopen hline (head?_append_swap s (hrest ▸ hend) fun hs => huv.line ?_)
    subst hs
    rw [List.nil_append] at hrest
    rwa [hrest]
  | @heredoc _ opening label inside body closing _ hopen h =>
    have hopens := (heredocOpening?_eq_some_iff.mp hopen).1
    have hclosing := ((heredocClosing?_eq_some_iff hopens.isName).mp (closing_of_untilLabel h)).2.2
    have hword : ∀ c ∈ (s ++ v).head?, isWord c = false :=
      head?_append_swap s (hrest ▸ hclosing) fun _ c hc => isWord_of_isInert (huv.new c hc)
    have := First.heredoc (heredocOpening?_eq_some_iff.mpr ⟨hopens, rfl⟩)
      (untilLabel_front hopens.isName h hword)
    simpa [Lexeme.text] using this
  | arrows h =>
    exact .arrows (harrows rfl (hrest ▸ h))
  | code h =>
    subst hrest
    rename_i c
    refine .code ⟨h.single, h.double, ?_, ?_, ?_⟩
    · refine after?_append_eq_none (c :: s) (fun d hd => ?_) (fun d hd => ?_) (by simp) h.block
      · exact (notMem_marks_of_isInert (huv.old d hd)).1
      · exact (notMem_marks_of_isInert (huv.new d hd)).1
    · have hremark := h.remark
      cases s with
      | cons d s => exact hremark
      | nil =>
        have hmark : c ≠ '#' := by
          rintro rfl
          cases u with
          | nil => cases hremark
          | cons d u =>
            have hd := huv.old d (by simp)
            by_cases hbracket : d = '[' <;> simp_all [opensRemark, isInert]
        cases v with
        | nil => simpa [opensRemark] using hmark
        | cons d v =>
          have hd := huv.new d (by simp)
          by_cases hslash : d = '/' <;> simp_all [opensRemark, isInert]
    · refine after?_append_eq_none (c :: s) (fun d hd => ?_) (fun d hd => ?_) (by simp) h.heredoc
      · exact (notMem_marks_of_isInert (huv.old d hd)).2
      · exact (notMem_marks_of_isInert (huv.new d hd)).2

end EntityScaffold.Source
