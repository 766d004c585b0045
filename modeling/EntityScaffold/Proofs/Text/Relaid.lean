import EntityScaffold.Proofs.Text.Trimmed

/-!
# Texts that differ in the blanks around line feeds

`Relaid s t` says what laying out a text may do to it: where blanks with a line feed among them
stand, others take their place; the line feed is the first of them, so that no blank is left at the
end of the line before it, and the indentation behind the last line feed changes by spaces and tabs.
All else stays, character for character.

* `Relaid.trimmedLines` — the lines are the same but for the blanks around them.
* `Relaid.eq_of_notMem` — a text without line feeds stays.
* `Relaid.of_ink`, `Relaid.of_ink_new` — a beginning without line feeds stays, either way.
* `relaid_lines` — a change of every line that keeps what the line holds.
-/

set_option autoImplicit false

namespace EntityScaffold.Text

/-- Blanks up to a line feed. -/
structure IsBreak (g : Text) : Prop where
  blank : ∀ c ∈ g, isBlank c = true
  last : g.getLast? = some '\n'

namespace IsBreak

variable {g h : Text}

theorem lineFeed : IsBreak ['\n'] := ⟨by decide, rfl⟩

theorem exists_eq (hg : IsBreak g) : ∃ h, g = h ++ ['\n'] ∧ ∀ c ∈ h, isBlank c = true := by
  obtain ⟨h, hh⟩ := List.getLast?_eq_some_iff.mp hg.last
  exact ⟨h, hh, fun c hc => hg.blank c (by simp [hh, hc])⟩

theorem append (hh : ∀ c ∈ h, isBlank c = true) (hg : IsBreak g) : IsBreak (h ++ g) where
  blank := by
    intro c hc
    rcases List.mem_append.mp hc with hc | hc
    · exact hh c hc
    · exact hg.blank c hc
  last := by
    rw [getLast?_append_of_ne_nil h (by rintro rfl; cases hg.last), hg.last]

/-- One line feed or more. -/
theorem of_lineFeeds (hg : ∀ c ∈ g, c = '\n') (hne : g ≠ []) : IsBreak g where
  blank := fun c hc => by
    rw [hg c hc]
    decide
  last := by
    cases hlast : g.getLast? with
    | none => exact absurd (List.getLast?_eq_none_iff.mp hlast) hne
    | some c => rw [hg c (List.mem_of_getLast? hlast)]

theorem ne_nil (hg : IsBreak g) : g ≠ [] := by
  rintro rfl
  cases hg.last

theorem mem (hg : IsBreak g) : '\n' ∈ g := List.mem_of_getLast? hg.last

end IsBreak

/-- Two texts that differ in the blanks around line feeds only. -/
inductive Relaid : Text → Text → Prop where
  | nil : Relaid [] []
  | char (c : Char) {s t : Text} (h : Relaid s t) : Relaid (c :: s) (c :: t)
  | feed {g g' x x' s t : Text} (old : IsBreak g) (new : IsBreak g') (head : g'.head? = some '\n')
      (indent : ∀ c ∈ x, isSpaceTab c = true) (indent' : ∀ c ∈ x', isSpaceTab c = true)
      (h : Relaid s t) : Relaid (g ++ (x ++ s)) (g' ++ (x' ++ t))

namespace Relaid

variable {g g' p s s' t t' : Text} {c : Char}

theorem refl (s : Text) : Relaid s s := by
  induction s with
  | nil => exact .nil
  | cons c s ih => exact .char c ih

theorem append (h : Relaid s t) (h' : Relaid s' t') : Relaid (s ++ s') (t ++ t') := by
  induction h with
  | nil => exact h'
  | char c _ ih => exact .char c ih
  | feed old new head indent indent' _ ih =>
    simp only [List.append_assoc]
    exact .feed old new head indent indent' ih

/-- One break in place of another. -/
theorem of_break (old : IsBreak g) (new : IsBreak g') (head : g'.head? = some '\n') :
    Relaid g g' := by
  have hnil : ∀ c ∈ ([] : Text), isSpaceTab c = true := by simp
  simpa using feed old new head hnil hnil .nil

/-- The lines are the same but for the blanks around them. -/
theorem trimmedLines (h : Relaid s t) : Text.trimmedLines s = Text.trimmedLines t := by
  have hall : ∀ p, Text.trimmedLines (p ++ s) = Text.trimmedLines (p ++ t) := by
    induction h with
    | nil => exact fun p => rfl
    | char c _ ih =>
      intro p
      simpa using ih (p ++ [c])
    | @feed g g' x x' s t old new head indent indent' _ ih =>
      have hbreak : ∀ {g x : Text} (p u : Text), IsBreak g → (∀ c ∈ x, isSpaceTab c = true) →
          Text.trimmedLines (p ++ (g ++ (x ++ u))) =
            Text.trimmedLines p ++ Text.trimmedLines u := by
        intro g x p u hg hx
        obtain ⟨b, rfl, hb⟩ := hg.exists_eq
        have hassoc : p ++ (b ++ ['\n'] ++ (x ++ u)) = (p ++ b) ++ '\n' :: (x ++ u) := by simp
        rw [hassoc, trimmedLines_append, trimmedLines_append_blanks p hb,
          trimmedLines_blanks_append fun c hc => isBlank_of_isSpaceTab (hx c hc)]
      intro p
      rw [hbreak p s old indent, hbreak p t new indent']
      exact congrArg _ (ih [])
  exact hall []

/-- A text without line feeds stays. -/
theorem eq_of_notMem (h : Relaid s t) (hs : '\n' ∉ s) : t = s := by
  induction h with
  | nil => rfl
  | char c _ ih =>
    simp only [List.mem_cons, not_or] at hs
    rw [ih hs.2]
  | feed old => exact absurd (List.mem_append_left _ old.mem) hs

theorem nil_left (h : Relaid [] t) : t = [] := h.eq_of_notMem (by simp)

/-- Behind blanks, the same stands. -/
theorem stripStart (h : Relaid s t) : Relaid (Text.stripStart s) (Text.stripStart t) := by
  induction h with
  | nil => exact .nil
  | @char c s t h ih =>
    simp only [Text.stripStart, List.dropWhile_cons]
    split
    · exact ih
    · exact .char c h
  | @feed g g' x x' s t old new head indent indent' _ ih =>
    have hx : ∀ {x : Text}, (∀ c ∈ x, isSpaceTab c = true) → ∀ c ∈ x, isBlank c = true :=
      fun hx c hc => isBlank_of_isSpaceTab (hx c hc)
    simp only [Text.stripStart] at ih ⊢
    rwa [List.dropWhile_append_of_pos old.blank, List.dropWhile_append_of_pos (hx indent),
      List.dropWhile_append_of_pos new.blank, List.dropWhile_append_of_pos (hx indent')]

theorem stripStart_lineFeed (h : Relaid ('\n' :: s) ('\n' :: t)) :
    Relaid (Text.stripStart s) (Text.stripStart t) :=
  h.stripStart

/-! ## Beginnings that stay -/

/-- A beginning that ends within its line with something to see. -/
structure Ink (p : Text) : Prop where
  line : '\n' ∉ p
  last : ∀ c ∈ p.getLast?, isBlank c = false

theorem Ink.of_cons {d : Char} {p : Text} (h : Ink (c :: d :: p)) : Ink (d :: p) where
  line := fun hmem => h.line (List.mem_cons_of_mem c hmem)
  last := h.last

/-- It does not begin with a break. -/
theorem Ink.ne_append {u : Text} (h : Ink p) (hp : p ≠ []) (hg : IsBreak g) :
    p ++ s ≠ g ++ u := by
  intro heq
  rcases List.append_eq_append_iff.mp heq with ⟨g', rfl, -⟩ | ⟨p', rfl, -⟩
  · obtain ⟨c, hc⟩ : ∃ c, p.getLast? = some c := by
      cases hl : p.getLast? with
      | none => exact absurd (List.getLast?_eq_none_iff.mp hl) hp
      | some c => exact ⟨c, rfl⟩
    have := h.last c hc
    rw [hg.blank c (List.mem_append_left _ (List.mem_of_getLast? hc))] at this
    cases this
  · exact h.line (List.mem_append_left _ hg.mem)

theorem Ink.of_solid (hc : isBlank c = false) : Ink [c] where
  line := by
    intro hmem
    rw [← List.mem_singleton.mp hmem] at hc
    revert hc
    decide
  last := by simpa using hc

theorem of_ink (hp : Ink p) (h : Relaid (p ++ s) t) : ∃ t', t = p ++ t' ∧ Relaid s t' := by
  induction p generalizing t with
  | nil => exact ⟨t, rfl, h⟩
  | cons c p ih =>
    generalize hx : c :: p ++ s = x at h
    cases h with
    | nil => cases hx
    | char d h =>
      obtain ⟨rfl, rfl⟩ := List.cons.inj hx
      cases p with
      | nil => exact ⟨_, rfl, h⟩
      | cons e p =>
        obtain ⟨t', rfl, h'⟩ := ih hp.of_cons h
        exact ⟨t', rfl, h'⟩
    | feed old => exact absurd hx (hp.ne_append (by simp) old)

theorem of_ink_new (hp : Ink p) (h : Relaid s (p ++ t)) : ∃ s', s = p ++ s' ∧ Relaid s' t := by
  induction p generalizing s with
  | nil => exact ⟨s, rfl, h⟩
  | cons c p ih =>
    generalize hx : c :: p ++ t = x at h
    cases h with
    | nil => cases hx
    | char d h =>
      obtain ⟨rfl, rfl⟩ := List.cons.inj hx
      cases p with
      | nil => exact ⟨_, rfl, h⟩
      | cons e p =>
        obtain ⟨s', rfl, h'⟩ := ih hp.of_cons h
        exact ⟨s', rfl, h'⟩
    | feed _ new => exact absurd hx (hp.ne_append (by simp) new)

theorem cons (hc : isBlank c = false) (h : Relaid (c :: s) t) : ∃ t', t = c :: t' ∧ Relaid s t' :=
  of_ink (.of_solid hc) h

theorem cons_new (hc : isBlank c = false) (h : Relaid s (c :: t)) :
    ∃ s', s = c :: s' ∧ Relaid s' t :=
  of_ink_new (.of_solid hc) h

end Relaid

/-! ## Changes of every line -/

/-- Two lines that hold the same: both nothing, or the same behind spaces and tabs, with no blanks
behind it in the second. -/
inductive SameLine : Text → Text → Prop where
  | blank {l l' : Text} (h : ∀ c ∈ l, isBlank c = true) (h' : ∀ c ∈ l', isBlank c = true) :
      SameLine l l'
  | ink {x x' y : Text} (core : Text) (indent : ∀ c ∈ x, isSpaceTab c = true)
      (indent' : ∀ c ∈ x', isSpaceTab c = true) (behind : ∀ c ∈ y, isBlank c = true) :
      SameLine (x ++ (core ++ y)) (x' ++ core)

/-- Lines, each with the line feed behind it. -/
def rows (ls : List Text) : Text := ls.flatMap (· ++ ['\n'])

theorem ofLines_lineFeed {ls : List Text} (h : ls ≠ []) : ofLines ls ++ ['\n'] = rows ls := by
  induction ls with
  | nil => exact absurd rfl h
  | cons l ls ih =>
    cases ls with
    | nil => simp [rows, ofLines_singleton]
    | cons k ks =>
      rw [ofLines_cons (by simp), List.append_assoc, List.cons_append, ih (by simp)]
      simp [rows]

/-- **A change of every line that keeps what the line holds** changes the blanks around line feeds
only. -/
theorem relaid_rows {f : Text → Text} {ls : List Text} (h : ∀ l ∈ ls, SameLine l (f l))
    {g g' : Text} (old : IsBreak g) (new : IsBreak g') (head : g'.head? = some '\n') :
    Relaid (g ++ rows ls) (g' ++ rows (ls.map f)) := by
  induction ls generalizing g g' with
  | nil => simpa [rows] using Relaid.of_break old new head
  | cons l ls ih =>
    have hrest := fun {g g' : Text} (old : IsBreak g) (new : IsBreak g') =>
      ih (fun k hk => h k (List.mem_cons_of_mem l hk)) old new
    have hl := h l List.mem_cons_self
    have hrows : ∀ (k : Text) (ks : List Text), rows (k :: ks) = k ++ (['\n'] ++ rows ks) := by
      simp [rows]
    rw [List.map_cons, hrows, hrows]
    generalize f l = l' at hl
    cases hl with
    | blank hl hl' =>
      have hgl : ∀ {g k : Text}, IsBreak g → (∀ c ∈ k, isBlank c = true) →
          IsBreak (g ++ (k ++ ['\n'])) := fun hg hk =>
        .append hg.blank (.append hk .lineFeed)
      have hhead : (g' ++ (l' ++ ['\n'])).head? = some '\n' := by
        rw [List.head?_append, head]
        rfl
      have := hrest (hgl old hl) (hgl new hl') hhead
      simpa only [List.append_assoc] using this
    | @ink x x' y core indent indent' behind =>
      have := Relaid.feed old new head indent indent'
        ((Relaid.refl core).append (hrest (.append behind .lineFeed) .lineFeed rfl))
      simpa only [List.append_assoc] using this

theorem relaid_lines {f : Text → Text} {t : Text} (h : ∀ l ∈ lines t, SameLine l (f l)) :
    Relaid ('\n' :: (t ++ ['\n'])) ('\n' :: (ofLines ((lines t).map f) ++ ['\n'])) := by
  have hne : lines t ≠ [] := splitAt_ne_nil '\n' t
  have := relaid_rows h .lineFeed .lineFeed rfl
  rwa [← ofLines_lineFeed hne, ← ofLines_lineFeed (by simpa using hne), ofLines_lines] at this

end EntityScaffold.Text
