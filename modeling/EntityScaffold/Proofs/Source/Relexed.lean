import EntityScaffold.Proofs.Source.Reading
import EntityScaffold.Proofs.Source.RelaidEnds
import Mathlib.Data.List.Forall2

/-!
# The lexemes of a text laid out anew

Blanks around line feeds do not decide where a lexeme ends, but for one place: a heredoc begins only
if nothing stands between its label and the line feed.  So the lexemes of a text are found again,
one by one, in a text that is `Relaid` and differs from it as laying out makes it; those that stand
on more than one line may have other blanks around their line feeds.

* `Lexeme.Alike` — two lexemes of one sort with the same lines but for the blanks around them.
* `First.relaid` — the first lexeme of a text laid out anew.
* `Reads.relaid` — all lexemes but blanks, by induction on the reading.
-/

set_option autoImplicit false

namespace EntityScaffold.Source

open Text

variable {s t u v : Text}

/-! ## The first lexeme -/

/-- Two lexemes of one sort with the same lines but for the blanks around them; those of code are
the same. -/
inductive Lexeme.Alike : Lexeme → Lexeme → Prop where
  | code (t : Text) : Alike (.code t) (.code t)
  | literal {q : Char} {body body' : Text}
      (h : trimmedLines (Lexeme.literal q body).text = trimmedLines (Lexeme.literal q body').text) :
      Alike (.literal q body) (.literal q body')
  | block {body body' : Text}
      (h : trimmedLines (Lexeme.block body).text = trimmedLines (Lexeme.block body').text) :
      Alike (.block body) (.block body')
  | remark {t t' : Text} (h : trimmedLines t = trimmedLines t') : Alike (.remark t) (.remark t')
  | heredoc {o b c o' b' c' : Text}
      (h : trimmedLines (Lexeme.heredoc o b c).text = trimmedLines (Lexeme.heredoc o' b' c').text) :
      Alike (.heredoc o b c) (.heredoc o' b' c')

theorem Lexeme.Alike.refl (l : Lexeme) : l.Alike l := by
  cases l with
  | code => exact .code _
  | literal => exact .literal rfl
  | block => exact .block rfl
  | remark => exact .remark rfl
  | heredoc => exact .heredoc rfl

theorem Lexeme.Alike.trans {l k m : Lexeme} (h : l.Alike k) (h' : k.Alike m) : l.Alike m := by
  cases h with
  | code => exact h'
  | literal h =>
    cases h' with
    | literal h' => exact .literal (h.trans h')
  | block h =>
    cases h' with
    | block h' => exact .block (h.trans h')
  | remark h =>
    cases h' with
    | remark h' => exact .remark (h.trans h')
  | heredoc h =>
    cases h' with
    | heredoc h' => exact .heredoc (h.trans h')

theorem startsWith_relaid {p : Text} (hp : ∀ c ∈ p, isBlank c = false) (h : Relaid s t) :
    startsWith p s = startsWith p t := by
  rcases after?_relaid hp h with ⟨hs, ht⟩ | ⟨r, r', hs, ht, -⟩ <;> simp [startsWith, hs, ht]

theorem opensRemark_relaid (c : Char) (h : Relaid s t) :
    opensRemark (c :: s) = opensRemark (c :: t) := by
  have hbracket : (s.head? != some '[') = (t.head? != some '[') := by
    rw [Bool.eq_iff_iff, bne_iff_ne, bne_iff_ne, ne_eq, ne_eq, head?_relaid (by decide) h]
  rw [opensRemark_cons, opensRemark_cons, startsWith_relaid (by decide) (.char c h), hbracket]

theorem standsAlone_relaid {c : Char} (h : Relaid s t) (hs : StandsAlone c s) :
    StandsAlone c t := by
  have hnone : ∀ {p : Text}, (∀ d ∈ p, isBlank d = false) → after? p (c :: s) = none →
      after? p (c :: t) = none := by
    intro p hp hnone
    rcases after?_relaid hp (.char c h) with ⟨-, ht⟩ | ⟨r, r', hr, -, -⟩
    · exact ht
    · rw [hnone] at hr
      cases hr
  exact ⟨hs.single, hs.double, hnone (by decide) hs.block,
    (opensRemark_relaid c h).symm.trans hs.remark, hnone (by decide) hs.heredoc⟩

theorem opensRemark_of_blanks {r y : Text} (h : opensRemark (r ++ y) = true)
    (hsolid : ∀ c ∈ (r ++ y).head?, isBlank c = false) (hy : ∀ c ∈ y, isBlank c = true) :
    opensRemark r = true := by
  match r, y with
  | [], [] => exact h
  | [], c :: y =>
    have := hsolid c (by simp)
    rw [hy c (by simp)] at this
    cases this
  | [c], [] => exact h
  | [c], d :: y =>
    have hd : d ≠ '/' := by
      rintro rfl
      exact absurd (hy '/' (by simp)) (by decide)
    simp [opensRemark, hd] at h ⊢
    exact h.1
  | c :: d :: r, y => exact h

/-- Whichever way the line ends that opens a heredoc, its lines are those of what stands on it and
those behind it. -/
theorem trimmedLines_append_ending (s : Text) {ending : Text}
    (h : ending = ['\n'] ∨ ending = ['\r', '\n']) (t : Text) :
    trimmedLines (s ++ (ending ++ t)) = trimmedLines s ++ trimmedLines t := by
  rcases h with rfl | rfl
  · exact trimmedLines_append s t
  · have hreturn : ∀ c ∈ ['\r'], isBlank c = true := by decide
    rw [← trimmedLines_append_blanks s hreturn, ← trimmedLines_append]
    simp

/-- Two heredocs that begin alike are alike if what stands behind their first lines is. -/
theorem alike_heredoc (p : Text) {ending ending' body body' closing closing' : Text}
    (hending : ending = ['\n'] ∨ ending = ['\r', '\n'])
    (hending' : ending' = ['\n'] ∨ ending' = ['\r', '\n'])
    (h : Relaid (['\n'] ++ (body ++ closing)) (['\n'] ++ (body' ++ closing'))) :
    (Lexeme.heredoc ("<<<" ++ (p ++ ending)) body closing).Alike
      (.heredoc ("<<<" ++ (p ++ ending')) body' closing') := by
  have hlines := h.trimmedLines
  rw [List.singleton_append, List.singleton_append, trimmedLines_cons_blank (by decide),
    trimmedLines_cons_blank (by decide)] at hlines
  have hsplit : ∀ e b c : Text, (Lexeme.heredoc ("<<<" ++ (p ++ e)) b c).text =
      ("<<<" ++ p) ++ (e ++ (b ++ c)) := by simp [Lexeme.text]
  refine .heredoc ?_
  rw [hsplit, hsplit, trimmedLines_append_ending _ hending, trimmedLines_append_ending _ hending',
    hlines]

/-- **The first lexeme of a text laid out anew.**  Three angle brackets behind which no heredoc
begins are left out: one might begin there once the blanks at the end of the line are gone. -/
theorem First.relaid {rest : Text} {l : Lexeme} (h : First u l rest) (hr : Relaid u v)
    (hsolid : ∀ c ∈ u.head?, isBlank c = false) (harrows : l ≠ .code "<<<") :
    ∃ k rest', First v k rest' ∧ l.Alike k ∧ Relaid (stripStart rest) (stripStart rest') := by
  cases h with
  | @literal q s body _ hq h =>
    have hblank : isBlank q = false := hsolid q (by simp)
    obtain ⟨t, rfl, hst⟩ := hr.cons hblank
    obtain ⟨body', rest', ht, hbody, hrest⟩ := (untilQuote_relaid hq hst).1 _ _ h
    refine ⟨_, rest', .literal hq ht, .literal ?_, hrest.stripStart⟩
    exact (Relaid.char q (hbody.append (.refl [q]))).trimmedLines
  | @block s body _ h =>
    obtain ⟨_, rfl, hstar⟩ := hr.cons (by decide)
    obtain ⟨t, rfl, hst⟩ := hstar.cons (by decide)
    rcases cutAt?_relaid (p := "*/") (by decide) (by simp) hst with
      ⟨hnone, -⟩ | ⟨b, r, b', r', hs, ht, hb, hrest⟩
    · rw [h] at hnone
      cases hnone
    · rw [h] at hs
      cases hs
      refine ⟨_, r', .block ht, .block ?_, hrest.stripStart⟩
      exact (((Relaid.refl "/*").append hb).append (.refl "*/")).trimmedLines
  | @remark r rest hopen hline hend =>
    obtain ⟨r', y, rest', rfl, rfl, hy, hend', hrest⟩ := remark_relaid hline hend hr
    have hsolid' : ∀ c ∈ (r' ++ y).head?, isBlank c = false := by
      intro c hc
      refine hsolid c ?_
      rw [List.head?_append, hc]
      rfl
    have hline' : '\n' ∉ r' := fun hmem => hline (List.mem_append_left _ hmem)
    exact ⟨.remark r', rest', .remark (opensRemark_of_blanks hopen hsolid' hy) hline' hend',
      .remark (trimmedLines_append_blanks r' hy), hrest⟩
  | @heredoc s opening label inside body closing rest hopen h =>
    obtain ⟨hopens, rfl⟩ := heredocOpening?_eq_some_iff.mp hopen
    obtain ⟨p, ending, rfl, hink, hending, hopens'⟩ := hopens.exists_ink
    have hu : '<' :: '<' :: '<' :: (p ++ ending ++ inside) =
        ("<<<" ++ p) ++ (ending ++ inside) := by simp
    rw [hu] at hr
    obtain ⟨w, rfl, hw⟩ := hr.of_ink hink
    obtain ⟨ending', inside', rfl, hending', hinside⟩ := lineEnd_relaid hending hw
    obtain ⟨body', closing', rest', ht, hbody, hrest⟩ :=
      endsAlike_behind hopens.isName hinside body closing rest h
    have hfirst :=
      First.heredoc (heredocOpening?_eq_some_iff.mpr ⟨hopens' ending' hending', rfl⟩) ht
    exact ⟨.heredoc ("<<<" ++ (p ++ ending')) body' closing', rest', by simpa using hfirst,
      alike_heredoc _ hending hending' hbody, hrest.stripStart⟩
  | arrows => exact absurd rfl harrows
  | @code c s h =>
    have hblank : isBlank c = false := hsolid c (by simp)
    obtain ⟨t, rfl, hst⟩ := hr.cons hblank
    exact ⟨.code [c], t, .code (standsAlone_relaid hst h), .code [c], hst.stripStart⟩

/-! ## All lexemes -/

/-- Whether the lexeme is a blank of code. -/
def Lexeme.isBlankCode : Lexeme → Bool
  | .code t => isBlankText t
  | _ => false

/-- The lexemes but the blanks of code. -/
def inked (ls : List Lexeme) : List Lexeme := ls.filter (!·.isBlankCode)

/-- Two lists of lexemes that are alike but for blanks of code. -/
def SameLexemes (ls ks : List Lexeme) : Prop := List.Forall₂ Lexeme.Alike (inked ls) (inked ks)

theorem Lexeme.Alike.isBlankCode {l k : Lexeme} (h : l.Alike k) :
    l.isBlankCode = k.isBlankCode := by
  cases h <;> rfl

theorem forall₂_alike_trans {ls ks ms : List Lexeme} (h : List.Forall₂ Lexeme.Alike ls ks)
    (h' : List.Forall₂ Lexeme.Alike ks ms) : List.Forall₂ Lexeme.Alike ls ms := by
  induction h generalizing ms with
  | nil => exact h'
  | cons hl _ ih =>
    cases h' with
    | cons hk h' => exact .cons (hl.trans hk) (ih h')

theorem mem_of_forall₂_alike {ls ks : List Lexeme} {t : Text}
    (h : List.Forall₂ Lexeme.Alike ls ks) (hmem : .code t ∈ ks) : .code t ∈ ls := by
  induction h with
  | nil => exact hmem
  | cons hl _ ih =>
    rcases List.mem_cons.mp hmem with rfl | hmem
    · cases hl
      exact List.mem_cons_self
    · exact List.mem_cons_of_mem _ (ih hmem)

namespace SameLexemes

variable {l k : Lexeme} {ls ls' ks ks' ms : List Lexeme}

theorem refl (ls : List Lexeme) : SameLexemes ls ls := List.forall₂_same.mpr fun l _ => .refl l

theorem trans (h : SameLexemes ls ks) (h' : SameLexemes ks ms) : SameLexemes ls ms :=
  forall₂_alike_trans h h'

theorem append (h : SameLexemes ls ks) (h' : SameLexemes ls' ks') :
    SameLexemes (ls ++ ls') (ks ++ ks') := by
  simp only [SameLexemes, inked, List.filter_append]
  exact List.rel_append h h'

theorem single (h : l.Alike k) : SameLexemes [l] [k] := by
  simp only [SameLexemes, inked, List.filter_cons, h.isBlankCode]
  split
  · exact .cons h .nil
  · exact .nil

/-- Blanks of code do not count. -/
theorem of_blanks (hls : ∀ l ∈ ls, l.isBlankCode = true) (hks : ∀ k ∈ ks, k.isBlankCode = true) :
    SameLexemes ls ks := by
  have hnil : ∀ {ls : List Lexeme}, (∀ l ∈ ls, l.isBlankCode = true) → inked ls = [] := by
    intro ls hls
    rw [inked, List.filter_eq_nil_iff]
    intro l hl
    simp [hls l hl]
  rw [SameLexemes, hnil hls, hnil hks]
  exact .nil

theorem of_blanks_left (hls : ∀ l ∈ ls, l.isBlankCode = true) : SameLexemes ls [] :=
  of_blanks hls (by simp)

theorem of_blanks_right (hks : ∀ k ∈ ks, k.isBlankCode = true) : SameLexemes [] ks :=
  of_blanks (by simp) hks

/-- Where one list holds no three angle brackets as code, the other does not. -/
theorem arrows (h : SameLexemes ls ks) (hls : .code "<<<" ∉ ls) : .code "<<<" ∉ ks := by
  intro hmem
  have hinked : .code "<<<" ∈ inked ks := List.mem_filter.mpr ⟨hmem, by decide⟩
  exact hls (List.mem_filter.mp (mem_of_forall₂_alike h hinked)).1

end SameLexemes

theorem isCode_of_isBlank {c : Char} (h : isBlank c = true) : isCode c = true := by
  have hne : ∀ {d : Char}, isBlank d = false → (c == d) = false := fun hd =>
    beq_false_of_ne (ne_of_isBlank h hd)
  rw [isCode, hne (by decide), hne (by decide), hne (by decide), hne (by decide), hne (by decide)]
  rfl

/-- Characters that are code by themselves are read one by one. -/
theorem reads_code {b : Text} (hb : ∀ c ∈ b, isCode c = true) (t : Text) :
    Reads (b ++ t) (b.map fun c => .code [c]) t := by
  induction b with
  | nil => exact .done t
  | cons c b ih =>
    exact .next (first_of_lexeme (lexeme_of_isCode (hb c (by simp)) _))
      (ih fun d hd => hb d (by simp [hd]))

/-- Blanks between lexemes are code. -/
theorem reads_blanks {b : Text} (hb : ∀ c ∈ b, isBlank c = true) (t : Text) :
    Reads (b ++ t) (b.map fun c => .code [c]) t :=
  reads_code (fun c hc => isCode_of_isBlank (hb c hc)) t

theorem flatMap_shown_code (b : Text) :
    (b.map fun c => Lexeme.code [c]).flatMap Lexeme.shown = b := by
  simp [List.flatMap_map, Lexeme.shown]

theorem isBlankCode_of_mem {b : Text} (hb : ∀ c ∈ b, isBlank c = true) :
    ∀ l ∈ b.map fun c => Lexeme.code [c], l.isBlankCode = true := by
  intro l hl
  obtain ⟨c, hc, rfl⟩ := List.mem_map.mp hl
  simp [Lexeme.isBlankCode, isBlankText, hb c hc]

/-- **The lexemes of a text laid out anew are the same but for blanks**, and so is what follows
them. -/
theorem Reads.relaid {rest : Text} {ls : List Lexeme} (h : Reads u ls rest)
    (hr : Relaid (stripStart u) (stripStart v)) (harrows : .code "<<<" ∉ ls) :
    ∃ ks rest', Reads v ks rest' ∧ SameLexemes ls ks ∧
      Relaid (stripStart rest) (stripStart rest') := by
  induction h generalizing v with
  | done t => exact ⟨[], v, .done v, .refl [], hr⟩
  | @next t u rest l ls hfirst hmore ih =>
    simp only [List.mem_cons, not_or] at harrows
    obtain ⟨c, t, rfl⟩ := List.exists_cons_of_ne_nil hfirst.ne_nil
    cases hc : isBlank c with
    | true =>
      obtain ⟨rfl, rfl⟩ := hfirst.unique
        (first_of_lexeme (lexeme_of_isCode (isCode_of_isBlank hc) t))
      rw [stripStart, List.dropWhile_cons_of_pos hc] at hr
      obtain ⟨ks, rest', hks, hsame, hrest⟩ := ih hr harrows.2
      refine ⟨ks, rest', hks, ?_, hrest⟩
      have hcode : SameLexemes [.code [c]] [] :=
        .of_blanks_left (isBlankCode_of_mem (b := [c]) (by simpa using hc))
      exact hcode.append hsame
    | false =>
      rw [stripStart, List.dropWhile_cons_of_neg (by simp [hc])] at hr
      obtain ⟨k, w, hk, hlk, hw⟩ := hfirst.relaid hr (by simpa using hc) (Ne.symm harrows.1)
      obtain ⟨ks, rest', hks, hsame, hrest⟩ := ih hw harrows.2
      have hblanks : ∀ d ∈ v.takeWhile isBlank, isBlank d = true :=
        fun d hd => List.all_eq_true.mp List.all_takeWhile d hd
      have hread := (reads_blanks hblanks (stripStart v)).append (.next hk hks)
      rw [stripStart, List.takeWhile_append_dropWhile] at hread
      refine ⟨_, rest', hread, ?_, hrest⟩
      exact (SameLexemes.of_blanks_right (isBlankCode_of_mem hblanks)).append
        ((SameLexemes.single hlk).append hsame)

/-- A text read to its end. -/
theorem Reads.relaid_all {ls : List Lexeme} (h : Reads u ls [])
    (hr : Relaid (stripStart u) (stripStart v)) (harrows : .code "<<<" ∉ ls) :
    ∃ ks, Reads v ks [] ∧ SameLexemes ls ks := by
  obtain ⟨ks, rest', hks, hsame, hrest⟩ := h.relaid hr harrows
  -- nothing but blanks is left
  have hblank : ∀ c ∈ rest', isBlank c = true := by
    have := hrest.nil_left
    rwa [stripStart, List.dropWhile_eq_nil_iff] at this
  have hend := reads_blanks hblank []
  rw [List.append_nil] at hend
  refine ⟨_, hks.append hend, ?_⟩
  have := hsame.append (SameLexemes.of_blanks_right (isBlankCode_of_mem hblank))
  rwa [List.append_nil] at this

end EntityScaffold.Source
