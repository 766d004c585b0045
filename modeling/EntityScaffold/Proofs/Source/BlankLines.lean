import EntityScaffold.Proofs.Source.FixedLayout
import EntityScaffold.Proofs.Source.SpacedImports
import EntityScaffold.Proofs.Source.StrictTypes

/-!
# Blank lines and the ends of lines in the file layout

* `TrimmedAt`, `trimmed_iff` — no line ends in spaces or tabs; `trimmed_trimLines`,
  `Replaced.trimmed`: the fifth pass sees to it, and the sixth keeps it.
* `Replaced.idle_collapse` — behind the sixth pass no three line feeds follow each other.
* `TagApart` — the opening tag does not have just one line feed behind it, unless a declaration
  follows; the third pass sees to it.
-/

set_option autoImplicit false

namespace EntityScaffold.Source

open Text

variable {grows : Bool} {prev : Option Char} {s t : Text}

/-! ## The ends of lines -/

/-- Something else than a line feed stands behind a space or a tab. -/
def TrimmedAt (s : Text) : Prop :=
  ∀ c u, s = c :: u → isSpaceTab c = true → u.head?.any (· != '\n') = true

/-- No line of the text ends in a space or a tab. -/
def LinesTrimmed (t : Text) : Prop := ∀ l ∈ lines t, ∀ c ∈ l.getLast?, isSpaceTab c = false

theorem lines_cons {c : Char} (hc : c ≠ '\n') (t : Text) :
    ∃ l ls, lines t = l :: ls ∧ lines (c :: t) = (c :: l) :: ls := by
  obtain ⟨l, ls, hl⟩ := List.exists_cons_of_ne_nil (splitAt_ne_nil '\n' t)
  refine ⟨l, ls, hl, ?_⟩
  rw [lines, splitAt, if_neg hc, hl]

theorem head?_of_lines {l : Text} {ls : List Text} (h : lines t = l :: ls) :
    t.head?.any (· != '\n') = !l.isEmpty := by
  cases t with
  | nil =>
    obtain rfl : [] = l := (List.cons.inj h).1
    rfl
  | cons c t =>
    by_cases hc : c = '\n'
    · subst hc
      obtain rfl : [] = l := (List.cons.inj h).1
      rfl
    · obtain ⟨k, ks, -, hk⟩ := lines_cons hc t
      rw [h] at hk
      rw [(List.cons.inj hk).1]
      simpa using hc

/-- **Lines that end with something else**, seen at every place of the text. -/
theorem trimmed_iff : Throughout (fun _ s => TrimmedAt s) prev t ↔ LinesTrimmed t := by
  induction t generalizing prev with
  | nil =>
    refine ⟨fun _ l hl c hc => ?_, fun _ => trivial⟩
    rw [List.mem_singleton.mp hl] at hc
    cases hc
  | cons c t ih =>
    rw [Throughout, ih]
    by_cases hc : c = '\n'
    · subst hc
      have hlines : lines ('\n' :: t) = [] :: lines t := lines_append [] t
      have hhere : TrimmedAt ('\n' :: t) := by
        intro d u heq hd
        obtain ⟨rfl, rfl⟩ := List.cons.inj heq
        exact Bool.noConfusion hd
      simp only [hhere, LinesTrimmed, hlines, List.forall_mem_cons, true_and]
      simp
    · obtain ⟨l, ls, hl, hcons⟩ := lines_cons hc t
      have hhere : TrimmedAt (c :: t) ↔ (isSpaceTab c = true → l ≠ []) := by
        constructor
        · intro h hspace hnil
          have := h c t rfl hspace
          rw [head?_of_lines hl, hnil] at this
          cases this
        · intro h d u heq hspace
          obtain ⟨rfl, rfl⟩ := List.cons.inj heq
          rw [head?_of_lines hl]
          simpa using h hspace
      simp only [hhere, LinesTrimmed, hl, hcons, List.forall_mem_cons]
      cases hlast : l.getLast? with
      | none =>
        obtain rfl := List.getLast?_eq_none_iff.mp hlast
        simp
      | some d =>
        have hne : l ≠ [] := by
          rintro rfl
          cases hlast
        simp [hne, List.getLast?_cons, hlast]

theorem linesTrimmed_ofLines {ls : List Text} (h : ∀ l ∈ ls, '\n' ∉ l)
    (hlast : ∀ l ∈ ls, ∀ c ∈ l.getLast?, isSpaceTab c = false) : LinesTrimmed (ofLines ls) := by
  cases ls with
  | nil =>
    intro l hl c hc
    rw [List.mem_singleton.mp hl] at hc
    cases hc
  | cons l ls =>
    rw [LinesTrimmed, lines_ofLines (by simp) h]
    exact hlast

/-- **The fifth pass** trims the lines. -/
theorem linesTrimmed_trimLines (t : Text) : LinesTrimmed (trimLines t) := by
  refine linesTrimmed_ofLines (fun l hl => ?_) fun l hl => ?_
  · obtain ⟨k, hk, rfl⟩ := List.mem_map.mp hl
    obtain ⟨u, hsplit, -⟩ := exists_dropEndWhile isSpaceTab k
    have hline := notMem_of_mem_lines hk
    rw [hsplit] at hline
    exact fun hm => hline (List.mem_append_left u hm)
  · obtain ⟨k, -, rfl⟩ := List.mem_map.mp hl
    exact getLast?_dropEndWhile isSpaceTab k

theorem trimLines_of_linesTrimmed (h : LinesTrimmed t) : trimLines t = t := by
  have hsame : (lines t).map (dropEndWhile isSpaceTab) = (lines t).map id :=
    List.map_congr_left fun l hl => dropEndWhile_of_last (h l hl)
  rw [trimLines, hsame, List.map_id, ofLines_lines]

theorem respaced_trimLines (t : Text) : Respaced false t (trimLines t) := by
  have h := respaced_trimmed (lines t)
  rwa [ofLines_lines] at h

theorem trimmedAt_lineFeed (u : Text) : TrimmedAt ('\n' :: u) := by
  intro c v heq hc
  rw [← (List.cons.inj heq).1] at hc
  exact Bool.noConfusion hc

/-- The sixth pass keeps the lines trimmed. -/
theorem Replaced.trimmed (h : Replaced collapseLineFeeds prev s t)
    (hs : Throughout (fun _ s => TrimmedAt s) prev s) :
    Throughout (fun _ s => TrimmedAt s) prev t := by
  induction h with
  | nil => trivial
  | @keep prev c s t _ rest ih =>
    refine ⟨fun d u heq hspace => ?_, ih hs.2⟩
    obtain ⟨rfl, rfl⟩ := List.cons.inj heq
    have hnext := hs.1 c s rfl hspace
    cases s with
    | nil => cases hnext
    | cons e s =>
      have he : e ≠ '\n' := by simpa using hnext
      obtain ⟨v, rfl, -⟩ := Replaced.of_append (s := [e]) (t := s) (fun p d u hd => by
        rw [List.mem_singleton.mp hd]
        exact collapseLineFeeds_of_ne he p u) rest
      exact hnext
  | swap found _ _ ih =>
    obtain ⟨rfl, -⟩ := eq_of_collapseLineFeeds found
    refine Throughout.append (fun p c u hc => ?_) (ih hs.drop).congr
    rw [eq_of_mem_feeds hc]
    exact trimmedAt_lineFeed u

/-- How many line feeds stand at the end does not matter. -/
theorem Throughout.trimmed_feeds {n m : Nat}
    (h : Throughout (fun _ s => TrimmedAt s) prev (s ++ feeds n)) :
    Throughout (fun _ s => TrimmedAt s) prev (s ++ feeds m) := by
  induction s generalizing prev with
  | nil =>
    have hend : Throughout (fun _ s => TrimmedAt s) prev (feeds m ++ []) :=
      Throughout.append (fun p c u hc => by
        rw [eq_of_mem_feeds hc]
        exact trimmedAt_lineFeed u) trivial
    rwa [List.append_nil] at hend
  | cons c s ih =>
    refine ⟨fun d u heq hspace => ?_, ih h.2⟩
    obtain ⟨rfl, rfl⟩ := List.cons.inj heq
    have hnext := h.1 c (s ++ feeds n) rfl hspace
    cases s with
    | cons e s => exact hnext
    | nil => cases n <;> exact Bool.noConfusion hnext

/-! ## Blank lines -/

theorem collapseLineFeeds_eq_none_iff {p : Option Char} :
    collapseLineFeeds p t = none ↔ ¬ feeds 3 <+: t := by
  have hthree : startsWith "\n\n\n" t = true ↔ feeds 3 <+: t := by
    constructor
    · intro h
      obtain ⟨u, hu⟩ := Option.isSome_iff_exists.mp h
      exact ⟨u, (eq_append_of_after? hu).symm⟩
    · rintro ⟨u, rfl⟩
      exact startsWith_append "\n\n\n" u
  rw [collapseLineFeeds, ← hthree]
  cases startsWith "\n\n\n" t <;> simp

/-- **The rule applies nowhere** just where no three line feeds follow each other. -/
theorem idle_collapse_iff : Idle collapseLineFeeds prev t ↔ ¬ feeds 3 <:+: t := by
  constructor
  · rintro h ⟨a, b, rfl⟩
    rw [List.append_assoc, feeds_succ] at h
    exact collapseLineFeeds_eq_none_iff.mp (Throughout.place h) ⟨b, rfl⟩
  · intro h
    refine Throughout.of_forall fun p a c u hsplit => collapseLineFeeds_eq_none_iff.mpr ?_
    rintro ⟨b, hb⟩
    refine h ⟨a, b, ?_⟩
    rw [hsplit, ← hb, List.append_assoc]

/-- Where a line feed stands, one stood before, or a run of them. -/
theorem Replaced.lineFeed_before (h : Replaced collapseLineFeeds prev s ('\n' :: t)) :
    feeds 3 <+: s ∨ ∃ s', s = '\n' :: s' ∧ Replaced collapseLineFeeds (some '\n') s' t := by
  generalize hx : '\n' :: t = x at h
  cases h with
  | nil => cases hx
  | keep _ rest =>
    obtain ⟨rfl, rfl⟩ := List.cons.inj hx
    exact .inr ⟨_, rfl, rest⟩
  | swap found =>
    obtain ⟨-, -, n, hold⟩ := eq_of_collapseLineFeeds found
    rw [hold]
    exact .inl ⟨feeds n ++ _, rfl⟩

theorem Replaced.head?_ne (h : Replaced collapseLineFeeds prev s t) (hs : s.head? ≠ some '\n') :
    t.head? ≠ some '\n' := by
  intro ht
  obtain ⟨u, rfl⟩ := List.head?_eq_some_iff.mp ht
  rcases h.lineFeed_before with ⟨r, rfl⟩ | ⟨s', rfl, -⟩ <;> exact hs rfl

/-- One blank line is no run of three line feeds. -/
theorem idle_collapse_feeds (ht : t.head? ≠ some '\n') (h : ¬ feeds 3 <:+: t)
    (prev : Option Char) : Idle collapseLineFeeds prev (feeds 2 ++ t) := by
  have hone : ¬ feeds 3 <+: '\n' :: t := by
    rintro ⟨u, hu⟩
    rw [← (List.cons.inj hu).2] at ht
    exact ht rfl
  have htwo : ¬ feeds 3 <+: '\n' :: '\n' :: t := by
    rintro ⟨u, hu⟩
    rw [← (List.cons.inj (List.cons.inj hu).2).2] at ht
    exact ht rfl
  exact ⟨collapseLineFeeds_eq_none_iff.mpr htwo, collapseLineFeeds_eq_none_iff.mpr hone,
    idle_collapse_iff.mpr h⟩

/-- **The sixth pass** leaves one of several blank lines. -/
theorem Replaced.idle_collapse (h : Replaced collapseLineFeeds prev s t) :
    Idle collapseLineFeeds prev t := by
  induction h with
  | nil => trivial
  | @keep prev c s t stays rest ih =>
    refine ⟨collapseLineFeeds_eq_none_iff.mpr ?_, ih⟩
    rintro ⟨u, hu⟩
    obtain ⟨rfl, rfl⟩ := List.cons.inj hu
    -- a run of line feeds stood there before, from this place on
    rw [collapseLineFeeds_eq_none_iff] at stays
    rcases rest.lineFeed_before with ⟨r, rfl⟩ | ⟨s₁, rfl, h₁⟩
    · exact stays ⟨'\n' :: r, rfl⟩
    · rcases h₁.lineFeed_before with ⟨r, rfl⟩ | ⟨s₂, rfl, -⟩
      · exact stays ⟨'\n' :: '\n' :: r, rfl⟩
      · exact stays ⟨s₂, rfl⟩
  | swap found _ rest ih =>
    obtain ⟨rfl, hs, -⟩ := eq_of_collapseLineFeeds found
    exact idle_collapse_feeds (rest.head?_ne hs) (idle_collapse_iff.mp ih) _

/-! ## Behind the opening tag -/

/-- The opening tag does not have just one line feed behind it, unless a declaration follows. -/
def TagApart (t : Text) : Prop :=
  ∀ u v, t = openTag ++ u → Respaced.OneFeed u v → beginsWithWord "declare" v = true

/-- **The third pass** sees to it. -/
theorem tagApart_separateOpenTag (t : Text) : TagApart (separateOpenTag t) := by
  intro u v heq hfeed
  have hkept : t = openTag ++ u → (after? openTag t).bind behindLineFeeds? = some v := by
    rintro rfl
    rw [after?_append, Option.bind_some, OneFeed.behindLineFeeds? hfeed]
  rw [separateOpenTag] at heq
  split at heq
  · rename_i rest hrest
    split at heq
    · rename_i hdeclare
      rw [hkept heq, Option.some.injEq] at hrest
      rw [hrest]
      exact hdeclare
    · rw [List.append_assoc] at heq
      rw [← List.append_cancel_left heq] at hfeed
      exact absurd hfeed (not_oneFeed_feeds rest)
  · rename_i hnone
    rw [hkept heq] at hnone
    cases hnone

theorem TagApart.respaced (h : Respaced grows s t) (hs : TagApart s) : TagApart t := by
  rintro u v rfl hfeed
  obtain ⟨w, rfl, hw⟩ := h.of_append_new (by decide)
  obtain ⟨v', hfeed', hv⟩ := hw.oneFeed hfeed
  obtain ⟨z, rfl, hz⟩ := eq_of_beginsWithWord (hs w v' rfl hfeed')
  obtain ⟨z', rfl, hz'⟩ := hv.of_append (by decide)
  rw [hz'.isWord_head] at hz
  exact beginsWithWord_append hz

end EntityScaffold.Source
