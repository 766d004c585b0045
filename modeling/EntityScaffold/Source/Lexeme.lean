import EntityScaffold.Text.Blank
import EntityScaffold.Source.ParseError

/-!
# Lexemes and the mask

A class file is cut into code characters, string literals, comments and heredocs.  The *mask* of
a text shows its code and hides the rest: the contents of strings and heredocs and whole comments
are replaced by spaces, line feeds excepted, so that positions in the mask are positions in the
text.

* `text_of_lexemes` — the lexemes of a text put together are the text.
* `length_mask` — the mask is as long as the text.
* `literals`, `comments` — the two other views of the lexemes.
-/

set_option autoImplicit false

namespace EntityScaffold.Source

open Text

/-- A piece of a class file. -/
inductive Lexeme where
  /-- Visible code: one character, or the three of `<<<` where no heredoc begins. -/
  | code (t : Text)
  /-- A string between two quotes `q`. -/
  | literal (q : Char) (body : Text)
  /-- A comment between `/*` and `*/`. -/
  | block (body : Text)
  /-- A comment up to the end of the line, with the characters that open it. -/
  | remark (t : Text)
  /-- A heredoc: the line that opens it, its body, and the blanks and the label that close it. -/
  | heredoc (opening body closing : Text)
  deriving DecidableEq, Repr

/-- The characters of a lexeme. -/
def Lexeme.text : Lexeme → Text
  | .code t => t
  | .literal q body => q :: body ++ [q]
  | .block body => "/*" ++ body ++ "*/"
  | .remark t => t
  | .heredoc opening body closing => opening ++ body ++ closing

/-- Line feeds stay, everything else becomes a space. -/
def hide (t : Text) : Text := t.map fun c => if c = '\n' then '\n' else ' '

/-- What the mask shows of a lexeme. -/
def Lexeme.shown : Lexeme → Text
  | .code t => t
  | .literal q body => q :: hide body ++ [q]
  | .block body => hide ("/*" ++ body ++ "*/")
  | .remark t => hide t
  | .heredoc opening body closing => opening ++ hide body ++ closing

theorem length_hide (t : Text) : (hide t).length = t.length := by simp [hide]

theorem Lexeme.length_shown (l : Lexeme) : l.shown.length = l.text.length := by
  cases l <;> simp only [Lexeme.shown, Lexeme.text, List.length_append, List.length_cons,
    length_hide]

/-- The body of a string up to its closing quote, and the rest behind the quote.  A backslash
takes the next character with it. -/
def untilQuote (q : Char) : Text → Option (Text × Text)
  | [] => none
  | '\\' :: c :: t => (untilQuote q t).map fun (body, rest) => ('\\' :: c :: body, rest)
  | c :: t =>
    if c = q then some ([], t) else (untilQuote q t).map fun (body, rest) => (c :: body, rest)

/-- The name at the beginning of a text: a letter or underscore and further word characters. -/
def name? : Text → Option (Text × Text)
  | [] => none
  | c :: t =>
    if isNameStart c then some (c :: t.takeWhile isWord, t.dropWhile isWord) else none

/-- A line end at the beginning of a text: a line feed, perhaps after a carriage return. -/
def lineEnd? : Text → Option (Text × Text)
  | '\n' :: t => some (['\n'], t)
  | '\r' :: '\n' :: t => some (['\r', '\n'], t)
  | _ => none

/-- What follows `<<<` on the line that opens a heredoc: blanks, the label, perhaps in quotes,
and the line end.  Gives this part, the label and the rest. -/
def heredocOpening? (t : Text) : Option (Text × Text × Text) := do
  let blanks := t.takeWhile isSpaceTab
  let t := t.dropWhile isSpaceTab
  let quote := (t.take 1).filter fun c => c == '\'' || c == '"'
  let (label, t) ← name? (t.drop quote.length)
  let t ← after? quote t
  let (ending, rest) ← lineEnd? t
  some (blanks ++ quote ++ label ++ quote ++ ending, label, rest)

/-- The label that closes a heredoc, after blanks at the beginning of a line and not followed by
a word character. -/
def heredocClosing? (label t : Text) : Option (Text × Text) := do
  let rest ← after? label (t.dropWhile isSpaceTab)
  if rest.head?.any isWord then none else some (t.takeWhile isSpaceTab ++ label, rest)

/-- The body of a heredoc up to the line that closes it, that line's part, and the rest. -/
def untilLabel (label : Text) (atLineStart : Bool) : Text → Option (Text × Text × Text)
  | [] => none
  | c :: t =>
    match if atLineStart then heredocClosing? label (c :: t) else none with
    | some (closing, rest) => some ([], closing, rest)
    | none => (untilLabel label (c == '\n') t).map
        fun (body, closing, rest) => (c :: body, closing, rest)

/-- The first lexeme of a text that begins with `c`, and the rest. -/
def lexeme (c : Char) (t : Text) : Except Defect (Lexeme × Text) :=
  if c = '\'' || c = '"' then
    match untilQuote c t with
    | some (body, rest) => .ok (.literal c body, rest)
    | none => .error .unterminatedString
  else match after? "/*" (c :: t) with
  | some inside =>
    match cutAt? "*/" inside with
    | some (body, rest) => .ok (.block body, rest)
    | none => .error .unterminatedComment
  | none =>
    if startsWith "//" (c :: t) || (c = '#' && t.head? != some '[') then
      .ok (.remark ((c :: t).takeWhile (· != '\n')), (c :: t).dropWhile (· != '\n'))
    else match after? "<<<" (c :: t) with
    | some behind =>
      match heredocOpening? behind with
      | none => .ok (.code "<<<", behind)
      | some (opening, label, inside) =>
        match untilLabel label true inside with
        | some (body, closing, rest) => .ok (.heredoc ("<<<" ++ opening) body closing, rest)
        | none => .error .unterminatedHeredoc
    | none => .ok (.code [c], t)

theorem eq_of_untilQuote {q : Char} {t body rest : Text}
    (h : untilQuote q t = some (body, rest)) : t = body ++ q :: rest := by
  fun_induction untilQuote q t generalizing body rest with
  | case1 => simp at h
  | case2 c t ih =>
    simp only [Option.map_eq_some_iff, Prod.exists, Prod.mk.injEq] at h
    obtain ⟨b, r, h1, rfl, rfl⟩ := h
    simp [ih h1]
  | case3 c t => simp at h; simp [h]
  | case4 c t _ _ ih =>
    simp only [Option.map_eq_some_iff, Prod.exists, Prod.mk.injEq] at h
    obtain ⟨b, r, h1, rfl, rfl⟩ := h
    simp [ih h1]

theorem eq_of_cutAt? {p t before behind : Text} (h : cutAt? p t = some (before, behind)) :
    t = before ++ p ++ behind := by
  induction t generalizing before behind with
  | nil =>
    simp only [cutAt?] at h
    split at h <;> simp_all
  | cons c t ih =>
    simp only [cutAt?] at h
    split at h
    · rename_i r hr
      simp only [Option.some.injEq, Prod.mk.injEq] at h
      obtain ⟨rfl, rfl⟩ := h
      simpa using eq_append_of_after? hr
    · simp only [Option.map_eq_some_iff, Prod.exists, Prod.mk.injEq] at h
      obtain ⟨b, r, h1, rfl, rfl⟩ := h
      simp [ih h1]

theorem eq_of_name? {t name rest : Text} (h : name? t = some (name, rest)) : t = name ++ rest := by
  cases t with
  | nil => simp [name?] at h
  | cons c t =>
    simp only [name?] at h
    split at h
    · simp only [Option.some.injEq, Prod.mk.injEq] at h
      obtain ⟨rfl, rfl⟩ := h
      simp
    · simp at h

theorem eq_of_lineEnd? {t ending rest : Text} (h : lineEnd? t = some (ending, rest)) :
    t = ending ++ rest := by
  unfold lineEnd? at h
  split at h
  · simp only [Option.some.injEq, Prod.mk.injEq] at h
    simp [← h.1, h.2]
  · simp only [Option.some.injEq, Prod.mk.injEq] at h
    simp [← h.1, h.2]
  · simp at h

theorem eq_of_heredocOpening? {t opening label rest : Text}
    (h : heredocOpening? t = some (opening, label, rest)) : t = opening ++ rest := by
  simp only [heredocOpening?, Option.bind_eq_bind, Option.bind_eq_some_iff, Prod.exists,
    Option.some.injEq, Prod.mk.injEq] at h
  obtain ⟨name, u, h1, v, h2, ending, w, h3, rfl, rfl, rfl⟩ := h
  have e1 := eq_of_name? h1
  have e2 := eq_append_of_after? h2
  have e3 := eq_of_lineEnd? h3
  have e4 : ((t.dropWhile isSpaceTab).take 1).filter (fun c => c == '\'' || c == '"') ++
      (t.dropWhile isSpaceTab).drop
        (((t.dropWhile isSpaceTab).take 1).filter (fun c => c == '\'' || c == '"')).length
      = t.dropWhile isSpaceTab := by
    cases t.dropWhile isSpaceTab with
    | nil => rfl
    | cons c r => by_cases hq : c = '\'' ∨ c = '"' <;> simp_all
  conv => lhs; rw [← List.takeWhile_append_dropWhile (p := isSpaceTab) (l := t), ← e4, e1, e2, e3]
  simp

theorem eq_of_heredocClosing? {label t closing rest : Text}
    (h : heredocClosing? label t = some (closing, rest)) : t = closing ++ rest := by
  simp only [heredocClosing?, Option.bind_eq_bind, Option.bind_eq_some_iff] at h
  obtain ⟨r, h1, h2⟩ := h
  split at h2
  · simp at h2
  · simp only [Option.some.injEq, Prod.mk.injEq] at h2
    obtain ⟨rfl, rfl⟩ := h2
    have e := eq_append_of_after? h1
    conv => lhs; rw [← List.takeWhile_append_dropWhile (p := isSpaceTab) (l := t), e]
    simp

theorem eq_of_untilLabel {label t body closing rest : Text} {start : Bool}
    (h : untilLabel label start t = some (body, closing, rest)) : t = body ++ closing ++ rest := by
  induction t generalizing start body with
  | nil => simp [untilLabel] at h
  | cons c t ih =>
    simp only [untilLabel] at h
    split at h
    · rename_i hc
      simp only [Option.some.injEq, Prod.mk.injEq] at h
      obtain ⟨rfl, rfl, rfl⟩ := h
      split at hc
      · simpa using eq_of_heredocClosing? hc
      · simp at hc
    · simp only [Option.map_eq_some_iff, Prod.exists, Prod.mk.injEq] at h
      obtain ⟨b, cl, r, h1, rfl, rfl, rfl⟩ := h
      simp [ih h1]

/-- A lexeme and the rest are the text. -/
theorem eq_of_lexeme {c : Char} {t rest : Text} {l : Lexeme} (h : lexeme c t = .ok (l, rest)) :
    c :: t = l.text ++ rest := by
  unfold lexeme at h
  split at h
  · split at h
    · rename_i hq
      simp only [Except.ok.injEq, Prod.mk.injEq] at h
      obtain ⟨rfl, rfl⟩ := h
      simp [Lexeme.text, eq_of_untilQuote hq]
    · simp at h
  · split at h
    · rename_i ha
      split at h
      · rename_i hcut
        simp only [Except.ok.injEq, Prod.mk.injEq] at h
        obtain ⟨rfl, rfl⟩ := h
        have e1 := eq_append_of_after? ha
        have e2 := eq_of_cutAt? hcut
        rw [e1, e2]
        simp [Lexeme.text]
      · simp at h
    · split at h
      · simp only [Except.ok.injEq, Prod.mk.injEq] at h
        obtain ⟨rfl, rfl⟩ := h
        simp [Lexeme.text]
      · split at h
        · rename_i ha
          have e1 := eq_append_of_after? ha
          split at h
          · simp only [Except.ok.injEq, Prod.mk.injEq] at h
            obtain ⟨rfl, rfl⟩ := h
            simpa [Lexeme.text] using e1
          · rename_i ho
            split at h
            · rename_i hl
              simp only [Except.ok.injEq, Prod.mk.injEq] at h
              obtain ⟨rfl, rfl⟩ := h
              rw [e1, eq_of_heredocOpening? ho, eq_of_untilLabel hl]
              simp [Lexeme.text]
            · simp at h
        · simp only [Except.ok.injEq, Prod.mk.injEq] at h
          obtain ⟨rfl, rfl⟩ := h
          simp [Lexeme.text]

/-- A lexeme has at least one character. -/
theorem text_ne_nil_of_lexeme {c : Char} {t rest : Text} {l : Lexeme}
    (h : lexeme c t = .ok (l, rest)) : l.text ≠ [] := by
  unfold lexeme at h
  split at h
  · split at h
    · simp only [Except.ok.injEq, Prod.mk.injEq] at h
      obtain ⟨rfl, rfl⟩ := h
      simp [Lexeme.text]
    · simp at h
  · split at h
    · split at h
      · simp only [Except.ok.injEq, Prod.mk.injEq] at h
        obtain ⟨rfl, rfl⟩ := h
        simp [Lexeme.text]
      · simp at h
    · split at h
      · rename_i hs
        simp only [Except.ok.injEq, Prod.mk.injEq] at h
        obtain ⟨rfl, rfl⟩ := h
        have hc : c ≠ '\n' := by
          rintro rfl
          simp [startsWith, after?] at hs
        simp [Lexeme.text, hc]
      · split at h
        · split at h
          · simp only [Except.ok.injEq, Prod.mk.injEq] at h
            obtain ⟨rfl, rfl⟩ := h
            simp [Lexeme.text]
          · split at h
            · simp only [Except.ok.injEq, Prod.mk.injEq] at h
              obtain ⟨rfl, rfl⟩ := h
              simp [Lexeme.text]
            · simp at h
        · simp only [Except.ok.injEq, Prod.mk.injEq] at h
          obtain ⟨rfl, rfl⟩ := h
          simp [Lexeme.text]

theorem length_of_lexeme {c : Char} {t rest : Text} {l : Lexeme}
    (h : lexeme c t = .ok (l, rest)) : rest.length < (c :: t).length := by
  have h1 := congrArg List.length (eq_of_lexeme h)
  have h2 := List.length_pos_iff.2 (text_ne_nil_of_lexeme h)
  rw [List.length_append] at h1
  omega

/-- The lexemes of a text whose first line has the number `line`. -/
def lexemesFrom (line : Nat) : Text → Except ParseError (List Lexeme)
  | [] => .ok []
  | c :: t =>
    match _h : lexeme c t with
    | .error defect => .error (defect.atLine line)
    | .ok (l, rest) => (lexemesFrom (line + countChar '\n' l.text) rest).map (l :: ·)
  termination_by t => t.length
  decreasing_by exact length_of_lexeme _h

/-- The lexemes of a text. -/
def lexemes (t : Text) : Except ParseError (List Lexeme) := lexemesFrom 1 t

/-- The mask of a text. -/
def mask (t : Text) : Except ParseError Text :=
  (lexemes t).map (·.flatMap Lexeme.shown)

/-- The contents of the string literals and heredocs, in order. -/
def literals (t : Text) : Except ParseError (List Text) :=
  (lexemes t).map (·.filterMap fun
    | .literal _ body => some body
    | .heredoc _ body _ => some body
    | _ => none)

theorem text_of_lexemesFrom {line : Nat} {t : Text} {ls : List Lexeme}
    (h : lexemesFrom line t = .ok ls) : ls.flatMap Lexeme.text = t := by
  fun_induction lexemesFrom line t generalizing ls with
  | case1 =>
    simp only [Except.ok.injEq] at h
    subst h
    rfl
  | case2 => simp at h
  | case3 line c t l rest hl ih =>
    cases hr : lexemesFrom (line + countChar '\n' l.text) rest with
    | error e => simp [hr, Except.map] at h
    | ok more =>
      simp only [hr, Except.map, Except.ok.injEq] at h
      subst h
      rw [List.flatMap_cons, ih hr, eq_of_lexeme hl]

/-- Nothing is lost: the lexemes put together are the text. -/
theorem text_of_lexemes {t : Text} {ls : List Lexeme} (h : lexemes t = .ok ls) :
    ls.flatMap Lexeme.text = t :=
  text_of_lexemesFrom h

theorem length_mask {t m : Text} (h : mask t = .ok m) : m.length = t.length := by
  unfold mask at h
  cases hl : lexemes t with
  | error e => simp [hl, Except.map] at h
  | ok ls =>
    simp only [hl, Except.map, Except.ok.injEq] at h
    subst h
    conv => rhs; rw [← text_of_lexemes hl]
    clear hl
    induction ls with
    | nil => rfl
    | cons l ls ih => simp [List.flatMap_cons, Lexeme.length_shown, ih]

end EntityScaffold.Source
