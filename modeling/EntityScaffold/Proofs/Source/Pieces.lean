import EntityScaffold.Proofs.Source.Brackets
import EntityScaffold.Proofs.Source.FixedLayout
import EntityScaffold.Proofs.Source.Headers
import EntityScaffold.Proofs.Source.Masking

/-!
# Lines of generated code

A line of generated code is fixed code with names in it.  `Piece.scan` reads such a line without
looking at the names and follows everything the readers of class files count: words of class
headers, equals signs, brackets.  What it finds out holds for all plain names
(`sound_of_scanAll`), so a line is checked once, by computing.

* `Piece` — fixed code, a name within a word, a type, a quoted name, and so on.
* `Row` — a line and what the mask shows of it; `Row.Sound` says that it does not disturb the
  reading of the file around it.
* `rowOf_sound` — the line made of pieces that have been checked.
-/

set_option autoImplicit false

namespace EntityScaffold.Source

open Text

/-! ## Plain names -/

/-- Only ASCII letters, digits and underscores. -/
def Plain (t : Text) : Prop := ∀ c ∈ t, isAsciiWord c = true

instance (t : Text) : Decidable (Plain t) := List.decidableBAll _ t

/-- Plain, and the first character is a capital letter. -/
def Capital (t : Text) : Prop := Plain t ∧ t.head?.any isAsciiUpper = true

instance (t : Text) : Decidable (Capital t) := instDecidableAnd

theorem toNat_lt_of_isAsciiWord {c : Char} (h : isAsciiWord c = true) : c.toNat < 128 := by
  simp only [isAsciiWord, isAsciiLetter, isAsciiUpper, isAsciiLower, isAsciiDigit, Bool.or_eq_true,
    Bool.and_eq_true, decide_eq_true_eq, beq_iff_eq] at h
  have hz : ∀ d : Char, d ≤ 'z' → d.toNat < 128 := fun d hd =>
    Nat.lt_of_le_of_lt (show d.toNat ≤ 'z'.toNat from hd) (by decide)
  rcases h with ((⟨_, h⟩ | ⟨_, h⟩) | ⟨_, h⟩) | rfl
  · exact hz c (Nat.le_trans h (by decide : 'Z'.toNat ≤ 'z'.toNat))
  · exact hz c h
  · exact hz c (Nat.le_trans h (by decide : '9'.toNat ≤ 'z'.toNat))
  · decide

/-- What holds of every ASCII word character can be computed. -/
theorem forall_isAsciiWord {p : Char → Bool}
    (h : ∀ n < 128, isAsciiWord (Char.ofNat n) = true → p (Char.ofNat n) = true) {c : Char}
    (hc : isAsciiWord c = true) : p c = true := by
  have := h c.toNat (toNat_lt_of_isAsciiWord hc)
  rw [Char.ofNat_toNat] at this
  exact this hc

theorem isWord_of_isAsciiWord {c : Char} (h : isAsciiWord c = true) : isWord c = true := by
  rw [isWord_eq_isAsciiWord (toNat_lt_of_isAsciiWord h), h]

theorem isBlank_of_isAsciiWord {c : Char} (h : isAsciiWord c = true) : isBlank c = false := by
  have := forall_isAsciiWord (p := fun c => !isBlank c) (by decide) h
  simpa using this

theorem isCode_of_isAsciiWord {c : Char} (h : isAsciiWord c = true) : isCode c = true :=
  forall_isAsciiWord (by decide) h

/-- Whether a character is code that may stand in any line but those of braces. -/
def isLineCode (c : Char) : Bool := isCode c && c != '\n' && c != '\x7b' && c != '\x7d'

theorem not_isOpener_of_isAsciiWord {c : Char} (h : isAsciiWord c = true) :
    isOpener c = false ∧ isCloser c = false := by
  have := forall_isAsciiWord (p := fun c => !isOpener c && !isCloser c) (by decide) h
  simpa using this

theorem ne_of_isAsciiWord {c d : Char} (h : isAsciiWord c = true) (hd : isAsciiWord d = false) :
    c ≠ d := by
  rintro rfl
  rw [h] at hd
  cases hd

theorem Plain.notMem {t : Text} (h : Plain t) {d : Char} (hd : isAsciiWord d = false) : d ∉ t :=
  fun hm => ne_of_isAsciiWord (h d hm) hd rfl

theorem Plain.append {s t : Text} (hs : Plain s) (ht : Plain t) : Plain (s ++ t) := by
  intro c hc
  rcases List.mem_append.mp hc with h | h
  · exact hs c h
  · exact ht c h

/-! ## Pieces -/

/-- Whether a character may occur in a type. -/
def isTypeChar (c : Char) : Bool := isAsciiWord c || c == '?' || c == '\\'

/-- What holds of every character of a type can be computed. -/
theorem forall_isTypeChar {p : Char → Bool}
    (h : ∀ n < 128, isTypeChar (Char.ofNat n) = true → p (Char.ofNat n) = true) {c : Char}
    (hc : isTypeChar c = true) : p c = true := by
  have hlt : c.toNat < 128 := by
    simp only [isTypeChar, Bool.or_eq_true, beq_iff_eq] at hc
    rcases hc with (hc | rfl) | rfl
    · exact toNat_lt_of_isAsciiWord hc
    · decide
    · decide
  have := h c.toNat hlt
  rw [Char.ofNat_toNat] at this
  exact this hc

/-- A word that can stand as a type: no word of a header goes on after it. -/
structure IsType (t : Text) : Prop where
  chars : ∀ c ∈ t, isTypeChar c = true
  content : t ≠ []
  words : headRun headWords t = some []

theorem IsType.notMem {t : Text} (h : IsType t) {c : Char} (hc : isTypeChar c = false) : c ∉ t := by
  intro hm
  rw [h.chars c hm] at hc
  cases hc

/-- A piece of a line of generated code. -/
inductive Piece where
  /-- Fixed code. -/
  | code (t : Text)
  /-- A name, or a part of one, behind the beginning of a word. -/
  | name (t : Text)
  /-- A type. -/
  | type (t : Text)
  /-- A name between single quotes. -/
  | quoted (t : Text)
  /-- The mark that opens an attribute group. -/
  | group
  /-- The comment that declares the elements of a collection. -/
  | elements (t : Text)

namespace Piece

def text : Piece → Text
  | .code t | .name t | .type t => t
  | .quoted t => '\'' :: (t ++ ['\''])
  | .group => "#["
  | .elements t => "/*" ++ ("* @var " ++ t ++ "[] ") ++ "*/"

/-- What the mask shows of a piece. -/
def shown : Piece → Text
  | .code t | .name t | .type t => t
  | .quoted t => '\'' :: (hide t ++ ['\''])
  | .group => "#["
  | .elements t => hide ("/*" ++ ("* @var " ++ t ++ "[] ") ++ "*/")

/-- Whether the names in a piece are as they shall be. -/
def IsPlain : Piece → Prop
  | .code _ | .group => True
  | .name t | .quoted t | .elements t => Plain t
  | .type t => IsType t

/-- Where the readers of a class file are within a line: what is left of the words of a header,
whether an equals sign precedes, and the open brackets. -/
structure Scan where
  words : List Text
  after : Bool
  openers : List Char
  deriving DecidableEq

/-- Reads a piece without looking at its names; none if the names could matter. -/
def scan (s : Scan) : Piece → Option Scan
  | .code t =>
    if t.all isLineCode then do
      let words ← headRun s.words t
      let after ← equalRun s.after t
      let openers ← bracketRun s.openers t
      some ⟨words, after, openers⟩
    else none
  | .name _ => if s.words.isEmpty && !s.after then some s else none
  | .type _ =>
    if s.words = headWords && !s.after then some { s with words := [] } else none
  | .quoted _ => some ⟨headWords, false, s.openers⟩
  | .group => some ⟨headWords, false, '[' :: s.openers⟩
  | .elements _ => if s.words.contains [] then none else some ⟨headWords, false, s.openers⟩

/-! ### What has been read holds for all names -/

theorem headRun_nil_of_word {t : Text} (h : Plain t) : headRun [] t = some [] := by
  induction t with
  | nil => rfl
  | cons c t ih =>
    have hc := h c (by simp)
    rw [headRun_cons, headStep, if_neg (by simp [isBlank_of_isAsciiWord hc]),
      if_pos (isWord_of_isAsciiWord hc), Option.bind_some]
    exact ih fun d hd => h d (List.mem_cons_of_mem c hd)

/-- No word of a header goes on with a capital letter. -/
theorem headRun_capital {t : Text} (h : Capital t) {words : List Text}
    (hwords : words.any (·.any isAsciiUpper) = false) : headRun words t = some [] := by
  obtain ⟨hplain, hupper⟩ := h
  cases t with
  | nil => cases hupper
  | cons c t =>
    have hc := hplain c (by simp)
    have hcap : isAsciiUpper c = true := by simpa using hupper
    have hnone : continued c words = [] := by
      rw [continued, List.filterMap_eq_nil_iff]
      intro w hw
      cases w with
      | nil => rfl
      | cons d w =>
        have hd : c ≠ d := by
          rintro rfl
          have := List.any_eq_false.mp hwords _ hw
          simp [hcap] at this
        simp [after?, hd]
    rw [headRun_cons, headStep, if_neg (by simp [isBlank_of_isAsciiWord hc]),
      if_pos (isWord_of_isAsciiWord hc), Option.bind_some, hnone]
    exact headRun_nil_of_word fun d hd => hplain d (List.mem_cons_of_mem c hd)

theorem equalRun_of_notMem {t : Text} (h : '=' ∉ t) : equalRun false t = some false := by
  induction t with
  | nil => rfl
  | cons c t ih =>
    simp only [List.mem_cons, not_or] at h
    rw [equalRun_cons, equalStep, if_neg (Ne.symm h.1)]
    simp only [Bool.false_eq_true, if_false, Option.bind_some]
    exact ih h.2

theorem equalRun_of_plain {t : Text} (h : Plain t) : equalRun false t = some false :=
  equalRun_of_notMem (h.notMem (by decide))

theorem bracketRun_of_plain {t : Text} (h : Plain t) (openers : List Char) :
    bracketRun openers t = some openers := by
  have := bracketRun_outer (Level.of_plain fun c hc => not_isOpener_of_isAsciiWord (h c hc)).matched
    openers
  simpa using this

theorem hide_of_oneLine {t : Text} (h : '\n' ∉ t) : hide t = List.replicate t.length ' ' := by
  rw [List.eq_replicate_iff]
  refine ⟨length_hide t, fun c hc => ?_⟩
  obtain ⟨d, hd, rfl⟩ := List.mem_map.mp hc
  have hn : d ≠ '\n' := by
    rintro rfl
    exact h hd
  rw [if_neg hn]

theorem level_replicate (n : Nat) : Level (List.replicate n ' ') :=
  .of_plain fun c hc => by
    rw [List.eq_of_mem_replicate hc]
    decide

/-- Blanks complete no word that has not been read. -/
theorem headRun_replicate {words : List Text} (h : words.contains [] = false) (n : Nat) :
    headRun words (List.replicate (n + 1) ' ') = some headWords := by
  induction n generalizing words with
  | zero =>
    have hstep : headStep words ' ' = some headWords := by
      rw [headStep, if_pos (by decide), if_neg (by simpa using h)]
    rw [List.replicate_one, headRun_cons, hstep]
    rfl
  | succ n ih =>
    have hstep : headStep words ' ' = some headWords := by
      rw [headStep, if_pos (by decide), if_neg (by simpa using h)]
    rw [List.replicate_succ, headRun_cons, hstep, Option.bind_some]
    exact ih (by decide)

/-- What the reading of a piece tells about its text and what the mask shows of it. -/
structure Sound (p : Piece) (s s' : Scan) : Prop where
  shows : Shows p.text p.shown
  words : headRun s.words p.shown = some s'.words
  after : equalRun s.after p.text = some s'.after
  openers : bracketRun s.openers p.shown = some s'.openers
  oneLine : '\n' ∉ p.text
  opening : '\x7b' ∉ p.shown
  closing : '\x7d' ∉ p.shown

theorem sound_code {s s' : Scan} {t : Text} (h : (Piece.code t).scan s = some s') :
    Sound (.code t) s s' := by
  simp only [scan, Option.bind_eq_bind] at h
  split at h
  · rename_i hall
    rw [List.all_eq_true] at hall
    simp only [Option.bind_eq_some_iff, Option.some.injEq] at h
    obtain ⟨words, hwords, after, hafter, openers, hopeners, rfl⟩ := h
    have hchar : ∀ {d : Char}, isLineCode d = false → d ∉ t := fun hd hm => by
      rw [hall _ hm] at hd
      cases hd
    refine ⟨.code fun c hc => ?_, hwords, hafter, hopeners, hchar (by decide), hchar (by decide),
      hchar (by decide)⟩
    have := hall c hc
    simp only [isLineCode, Bool.and_eq_true] at this
    exact this.1.1.1
  · cases h

theorem sound_name {s s' : Scan} {t : Text} (ht : Plain t) (h : (Piece.name t).scan s = some s') :
    Sound (.name t) s s' := by
  simp only [scan] at h
  split at h
  · rename_i hs
    cases h
    simp only [Bool.and_eq_true, List.isEmpty_iff, Bool.not_eq_true'] at hs
    refine ⟨.code fun c hc => isCode_of_isAsciiWord (ht c hc), ?_, ?_,
      bracketRun_of_plain ht _, ht.notMem (by decide), ht.notMem (by decide),
      ht.notMem (by decide)⟩
    · rw [hs.1]
      exact headRun_nil_of_word ht
    · rw [hs.2]
      exact equalRun_of_plain ht
  · cases h

theorem sound_type {s s' : Scan} {t : Text} (ht : IsType t)
    (h : (Piece.type t).scan s = some s') : Sound (.type t) s s' := by
  simp only [scan] at h
  split at h
  · rename_i hs
    cases h
    simp only [Bool.and_eq_true, decide_eq_true_eq, Bool.not_eq_true'] at hs
    have hlevel : Level t := .of_plain fun c hc => by
      have := forall_isTypeChar (p := fun c => !isOpener c && !isCloser c) (by decide)
        (ht.chars c hc)
      simpa using this
    refine ⟨.code fun c hc => forall_isTypeChar (by decide) (ht.chars c hc), ?_, ?_,
      bracketRun_outer hlevel.matched s.openers, ht.notMem (by decide), hlevel.opening,
      hlevel.closing⟩
    · rw [hs.1]
      exact ht.words
    · rw [hs.2]
      exact equalRun_of_notMem (ht.notMem (by decide))
  · cases h

theorem sound_quoted {s s' : Scan} {t : Text} (ht : Plain t)
    (h : (Piece.quoted t).scan s = some s') : Sound (.quoted t) s s' := by
  simp only [scan, Option.some.injEq] at h
  subst h
  have hline : '\n' ∉ t := ht.notMem (by decide)
  have hhide := hide_of_oneLine hline
  have hquote : ∀ words : List Text, headStep words '\'' = some headWords := fun words => by
    rw [headStep, if_neg (by decide), if_neg (by decide), if_pos (by decide)]
  have hequal : ∀ after : Bool, equalStep after '\'' = some false := fun after => by
    cases after <;> decide
  have hlevel : Level ('\'' :: (hide t ++ ['\''])) := by
    have hq : Level ['\''] := .of_plain (by decide)
    rw [hhide]
    exact hq.append ((level_replicate _).append hq)
  have hverbatim := Verbatim.of_notMem (ht.notMem (by decide)) (ht.notMem (by decide))
  refine ⟨hverbatim.shows, ?_, ?_, ?_, ?_,
    hlevel.opening, hlevel.closing⟩
  · rw [shown, headRun_cons, hquote, Option.bind_some, headRun_append, hhide]
    cases t.length with
    | zero => exact hquote headWords
    | succ n =>
      rw [headRun_replicate (by decide), Option.bind_some]
      exact hquote headWords
  · rw [text, equalRun_cons, hequal, Option.bind_some, equalRun_append, equalRun_of_plain ht,
      Option.bind_some]
    exact hequal false
  · exact bracketRun_outer hlevel.matched s.openers
  · simp only [text, List.mem_cons, List.mem_append, List.not_mem_nil, or_false, not_or]
    exact ⟨by decide, hline, by decide⟩

theorem sound_group {s s' : Scan} (h : Piece.group.scan s = some s') : Sound .group s s' := by
  simp only [scan, Option.some.injEq] at h
  subst h
  have hmark : ∀ words : List Text, headStep words '#' = some headWords := fun words => by
    rw [headStep, if_neg (by decide), if_neg (by decide), if_pos (by decide)]
  have hequal : ∀ after : Bool, equalStep after '#' = some false := fun after => by
    cases after <;> decide
  refine ⟨.attribute, ?_, ?_, rfl, by decide, by decide, by decide⟩
  · change headRun s.words ('#' :: ['[']) = _
    rw [headRun_cons, hmark]
    rfl
  · change equalRun s.after ('#' :: ['[']) = _
    rw [equalRun_cons, hequal]
    rfl

theorem sound_elements {s s' : Scan} {t : Text} (ht : Plain t)
    (h : (Piece.elements t).scan s = some s') : Sound (.elements t) s s' := by
  simp only [scan] at h
  split at h
  · cases h
  · rename_i hs
    cases h
    have hslash : '/' ∉ ("* @var " ++ t ++ "[] " : Text) := by
      simp only [List.mem_append, not_or]
      exact ⟨⟨by decide, ht.notMem (by decide)⟩, by decide⟩
    have hline : '\n' ∉ ("/*" ++ ("* @var " ++ t ++ "[] ") ++ "*/" : Text) := by
      simp only [List.mem_append, not_or]
      exact ⟨⟨by decide, ⟨by decide, ht.notMem (by decide)⟩, by decide⟩, by decide⟩
    have hhide := hide_of_oneLine hline
    obtain ⟨n, hn⟩ : ∃ n, ("/*" ++ ("* @var " ++ t ++ "[] ") ++ "*/" : Text).length = n + 1 :=
      ⟨_, rfl⟩
    have hlevel : Level (Piece.elements t).shown := by
      rw [shown, hhide]
      exact level_replicate _
    have hequal : ∀ after : Bool, equalRun after ("/** @var " : Text) = some false := fun after => by
      cases after <;> decide
    refine ⟨.comment hslash, ?_, ?_, ?_, hline, hlevel.opening, hlevel.closing⟩
    · rw [shown, hhide, hn]
      exact headRun_replicate (by simpa using hs) n
    · change equalRun s.after ("/** @var " ++ (t ++ "[] ") ++ "*/") = _
      rw [equalRun_append, equalRun_append, hequal, Option.bind_some, equalRun_append,
        equalRun_of_plain ht]
      rfl
    · exact bracketRun_outer hlevel.matched s.openers

/-- **What is read of a piece holds whatever plain names are in it.** -/
theorem sound_of_scan {p : Piece} (hp : p.IsPlain) {s s' : Scan} (h : p.scan s = some s') :
    Sound p s s' := by
  cases p with
  | code t => exact sound_code h
  | name t => exact sound_name hp h
  | type t => exact sound_type hp h
  | quoted t => exact sound_quoted hp h
  | group => exact sound_group h
  | elements t => exact sound_elements hp h

end Piece

end EntityScaffold.Source
