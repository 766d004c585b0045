import EntityScaffold.Proofs.Text.Lines
import EntityScaffold.Text.Word

/-!
# Texts that differ in their line feeds and in what stands in front of them

`Respaced grows s t` says what a pass over the layout of a file may do to it: spaces, tabs and line
feeds up to a line feed become line feeds, one only where there was one; and what there is of them
at the end becomes any number of line feeds.  Unless `grows`, there are not more characters than
there were.

* `Respaced.of_append`, `Respaced.of_append_new` — a beginning without such characters stays; a
  beginning of the new text without line feeds was there before.
* `Respaced.oneFeed` — where one line feed is left, there was one, perhaps behind spaces and tabs.
* `Respaced.upTo` — the texts up to a character.
* `respaced_trimmed` — spaces and tabs at the ends of lines are taken away.
-/

set_option autoImplicit false

namespace EntityScaffold.Text

/-- Spaces, tabs and line feeds. -/
def isLayout (c : Char) : Bool := c == '\n' || isSpaceTab c

theorem isLayout_of_isSpaceTab {c : Char} (h : isSpaceTab c = true) : isLayout c = true := by
  rw [isLayout, h, Bool.or_true]

theorem isLayout_iff {c : Char} : isLayout c = true ↔ c = '\n' ∨ c = ' ' ∨ c = '\t' := by
  simp [isLayout, isSpaceTab]

theorem isBlank_of_isLayout {c : Char} (h : isLayout c = true) : isBlank c = true := by
  rcases isLayout_iff.mp h with rfl | rfl | rfl <;> decide

theorem isWord_of_isLayout {c : Char} (h : isLayout c = true) : isWord c = false := by
  rcases isLayout_iff.mp h with rfl | rfl | rfl <;> decide

/-- Some line feeds. -/
def feeds (n : Nat) : Text := List.replicate n '\n'

theorem eq_of_mem_feeds {n : Nat} {c : Char} (h : c ∈ feeds n) : c = '\n' := List.eq_of_mem_replicate h

theorem isBlank_of_mem_feeds (n : Nat) : ∀ c ∈ feeds n, isBlank c = true := fun c hc => by
  rw [eq_of_mem_feeds hc]
  decide

theorem getLast?_feeds (n : Nat) : (feeds (n + 1)).getLast? = some '\n' := by
  have hlast : feeds (n + 1) = feeds n ++ ['\n'] := List.replicate_succ'
  simp [hlast]

theorem feeds_ne_cons {n : Nat} {c : Char} {t : Text} (hc : c ≠ '\n') : feeds n ≠ c :: t :=
  fun h => hc (eq_of_mem_feeds (h ▸ List.mem_cons_self))

theorem feeds_append_ne_cons {n : Nat} {c : Char} {s t : Text} (hc : c ≠ '\n') :
    feeds (n + 1) ++ s ≠ c :: t := fun h => hc (List.cons.inj h).1.symm

/-- Spaces, tabs and line feeds up to a line feed, which `n + 1` line feeds may take the place of. -/
structure Gap (grows : Bool) (g : Text) (n : Nat) : Prop where
  layout : ∀ c ∈ g, isLayout c = true
  last : g.getLast? = some '\n'
  one : n = 0 → ∃ x, g = x ++ ['\n'] ∧ ∀ c ∈ x, isSpaceTab c = true
  room : grows = true ∨ n + 1 ≤ g.length

theorem Gap.ne_nil {grows : Bool} {g : Text} {n : Nat} (h : Gap grows g n) : g ≠ [] := by
  rintro rfl
  cases h.last

/-- Two texts that differ in their line feeds and in the spaces and tabs up to these. -/
inductive Respaced (grows : Bool) : Text → Text → Prop where
  | ends {g : Text} (n : Nat) (layout : ∀ c ∈ g, isLayout c = true) : Respaced grows g (feeds n)
  | char (c : Char) {s t : Text} (h : Respaced grows s t) : Respaced grows (c :: s) (c :: t)
  | gap {g s t : Text} {n : Nat} (gap : Gap grows g n) (h : Respaced grows s t) :
      Respaced grows (g ++ s) (feeds (n + 1) ++ t)

namespace Respaced

variable {grows : Bool} {s t p u : Text} {c : Char}

theorem nil : Respaced grows [] [] := .ends 0 (by simp)

theorem refl (s : Text) : Respaced grows s s := by
  induction s with
  | nil => exact .nil
  | cons c s ih => exact .char c ih

theorem append_left (p : Text) (h : Respaced grows s t) : Respaced grows (p ++ s) (p ++ t) := by
  induction p with
  | nil => exact h
  | cons c p ih => exact .char c ih

/-! ## Beginnings -/

theorem cons (hc : isLayout c = false) (h : Respaced grows (c :: s) t) :
    ∃ t', t = c :: t' ∧ Respaced grows s t' := by
  have hne : ∀ {g u : Text}, (∀ d ∈ g, isLayout d = true) → g ≠ [] → g ++ u ≠ c :: s := by
    intro g u hg hgne heq
    obtain ⟨d, g, rfl⟩ := List.exists_cons_of_ne_nil hgne
    rw [(List.cons.inj heq).1] at hg
    rw [hg c List.mem_cons_self] at hc
    cases hc
  generalize hx : c :: s = x at h
  cases h with
  | ends n layout =>
    have hxne : x ≠ [] := by simp [← hx]
    exact absurd (by rw [List.append_nil, hx]) (hne (u := []) layout hxne)
  | char d h =>
    obtain ⟨rfl, rfl⟩ := List.cons.inj hx
    exact ⟨_, rfl, h⟩
  | gap hg => exact absurd hx.symm (hne hg.layout hg.ne_nil)

theorem of_append (hp : ∀ c ∈ p, isLayout c = false) (h : Respaced grows (p ++ s) t) :
    ∃ t', t = p ++ t' ∧ Respaced grows s t' := by
  induction p generalizing t with
  | nil => exact ⟨t, rfl, h⟩
  | cons c p ih =>
    obtain ⟨t', rfl, h'⟩ := h.cons (hp c List.mem_cons_self)
    obtain ⟨t'', rfl, h''⟩ := ih (fun d hd => hp d (List.mem_cons_of_mem c hd)) h'
    exact ⟨t'', rfl, h''⟩

theorem cons_new (hc : c ≠ '\n') (h : Respaced grows s (c :: t)) :
    ∃ s', s = c :: s' ∧ Respaced grows s' t := by
  generalize hx : c :: t = x at h
  cases h with
  | ends n => exact absurd hx.symm (feeds_ne_cons hc)
  | char d h =>
    obtain ⟨rfl, rfl⟩ := List.cons.inj hx
    exact ⟨_, rfl, h⟩
  | gap => exact absurd hx.symm (feeds_append_ne_cons hc)

theorem of_append_new (hp : '\n' ∉ p) (h : Respaced grows s (p ++ t)) :
    ∃ s', s = p ++ s' ∧ Respaced grows s' t := by
  induction p generalizing s with
  | nil => exact ⟨s, rfl, h⟩
  | cons c p ih =>
    obtain ⟨hc, hp⟩ := not_or.mp (mt List.mem_cons.mpr hp)
    obtain ⟨s', rfl, h'⟩ := h.cons_new (Ne.symm hc)
    obtain ⟨s'', rfl, h''⟩ := ih hp h'
    exact ⟨s'', rfl, h''⟩

theorem of_nil (h : Respaced grows [] t) : ∃ n, t = feeds n := by
  generalize hx : ([] : Text) = x at h
  cases h with
  | ends n => exact ⟨n, rfl⟩
  | char => cases hx
  | gap hg => exact absurd (List.append_eq_nil_iff.mp hx.symm).1 hg.ne_nil

/-- Behind blanks, the same stands. -/
theorem dropWhile_isBlank (h : Respaced grows s t) :
    Respaced grows (s.dropWhile isBlank) (t.dropWhile isBlank) := by
  induction h with
  | ends n layout =>
    rw [List.dropWhile_eq_nil_iff.mpr fun c hc => isBlank_of_isLayout (layout c hc),
      List.dropWhile_eq_nil_iff.mpr (isBlank_of_mem_feeds n)]
    exact .nil
  | char c h ih =>
    rw [List.dropWhile_cons, List.dropWhile_cons]
    split
    · exact ih
    · exact .char c h
  | gap hg _ ih =>
    rwa [List.dropWhile_append_of_pos fun c hc => isBlank_of_isLayout (hg.layout c hc),
      List.dropWhile_append_of_pos (isBlank_of_mem_feeds _)]

/-- A blank begins the one text if it begins the other, unless nothing else follows. -/
theorem isBlank_head (h : Respaced grows s t) (ht : t.head?.any isBlank = true) :
    s.head?.any isBlank = true ∨ s = [] := by
  cases h with
  | ends n layout =>
    cases s with
    | nil => exact .inr rfl
    | cons d s => exact .inl (isBlank_of_isLayout (layout d List.mem_cons_self))
  | char c h => exact .inl ht
  | gap hg =>
    obtain ⟨d, g, rfl⟩ := List.exists_cons_of_ne_nil hg.ne_nil
    exact .inl (isBlank_of_isLayout (hg.layout d List.mem_cons_self))

/-- A word goes on in the one text if it does in the other. -/
theorem isWord_head (h : Respaced grows s t) : s.head?.any isWord = t.head?.any isWord := by
  have hlayout : ∀ {g : Text} (u : Text), (∀ c ∈ g, isLayout c = true) → g ≠ [] →
      (g ++ u).head?.any isWord = false := by
    intro g u hg hne
    obtain ⟨d, g, rfl⟩ := List.exists_cons_of_ne_nil hne
    exact isWord_of_isLayout (hg d List.mem_cons_self)
  have hfeeds : ∀ n, ∀ c ∈ feeds n, isLayout c = true := fun n c hc => by
    rw [eq_of_mem_feeds hc]
    decide
  have hends : ∀ {g : Text}, (∀ c ∈ g, isLayout c = true) → g.head?.any isWord = false := by
    intro g hg
    cases g with
    | nil => rfl
    | cons d g => exact isWord_of_isLayout (hg d List.mem_cons_self)
  cases h with
  | ends n layout => rw [hends layout, hends (hfeeds n)]
  | char c h => rfl
  | @gap g s t n hg =>
    rw [hlayout s hg.layout hg.ne_nil, hlayout t (hfeeds (n + 1)) (by simp [feeds])]

/-! ## Line feeds -/

/-- **One line feed is left only where there was one**, perhaps behind spaces and tabs. -/
theorem of_lineFeed_new (hne : t ≠ []) (hhead : t.head? ≠ some '\n')
    (h : Respaced grows s ('\n' :: t)) :
    ∃ x s', s = x ++ '\n' :: s' ∧ (∀ c ∈ x, isSpaceTab c = true) ∧ Respaced grows s' t := by
  generalize hx : '\n' :: t = y at h
  cases h with
  | ends n =>
    cases n with
    | zero => cases hx
    | succ n =>
      rw [(List.cons.inj hx).2] at hne hhead
      obtain ⟨m, rfl⟩ : ∃ m, n = m + 1 := Nat.exists_eq_add_one.mpr (Nat.pos_of_ne_zero fun h => by
        rw [h] at hne
        exact hne rfl)
      exact absurd rfl hhead
  | char d h =>
    obtain ⟨rfl, rfl⟩ := List.cons.inj hx
    exact ⟨[], _, rfl, by simp, h⟩
  | @gap g s u n hg h =>
    cases n with
    | zero =>
      obtain ⟨x, rfl, hspaces⟩ := hg.one rfl
      refine ⟨x, s, by simp, hspaces, ?_⟩
      rw [(List.cons.inj hx).2]
      exact h
    | succ n =>
      rw [(List.cons.inj hx).2] at hhead
      exact absurd rfl hhead

/-- Spaces and tabs, one line feed, and then something that is not blank. -/
def OneFeed (u v : Text) : Prop :=
  ∃ x, u = x ++ '\n' :: v ∧ (∀ c ∈ x, isSpaceTab c = true) ∧ v.head?.any (!isBlank ·) = true

theorem oneFeed {v : Text} (h : Respaced grows s t) (ht : OneFeed t v) :
    ∃ w, OneFeed s w ∧ Respaced grows w v := by
  obtain ⟨x, rfl, hx, hv⟩ := ht
  obtain ⟨s₁, rfl, h₁⟩ := h.of_append_new (notMem_of_spaceTabs hx)
  cases v with
  | nil => cases hv
  | cons d v =>
    have hd : isBlank d = false := by simpa using hv
    have hfeed : d ≠ '\n' := by
      rintro rfl
      revert hd
      decide
    obtain ⟨y, s₂, rfl, hy, h₂⟩ := h₁.of_lineFeed_new (by simp) (by simpa using hfeed)
    obtain ⟨s₃, rfl, h₃⟩ := h₂.cons_new hfeed
    refine ⟨d :: s₃, ⟨x ++ y, by simp, fun c hc => ?_, hv⟩, .char d h₃⟩
    exact (List.mem_append.mp hc).elim (hx c) (hy c)

/-! ## The whole text -/

/-- **The texts up to a character**: if there is no room to grow, the new one is not longer. -/
theorem upTo {d : Char} (hd : isLayout d = false) (h : Respaced false s (p ++ d :: t))
    (hp : d ∉ p) :
    ∃ q s', s = q ++ d :: s' ∧ d ∉ q ∧ p.length ≤ q.length ∧
      (p.head?.any isBlank = true → q.head?.any isBlank = true) ∧ Respaced false s' t := by
  have hfeed : d ≠ '\n' := by
    rintro rfl
    exact Bool.noConfusion hd
  generalize hx : p ++ d :: t = x at h
  induction h generalizing p with
  | ends n => exact absurd (eq_of_mem_feeds (hx ▸ List.mem_append_right p List.mem_cons_self)) hfeed
  | @char c s u h ih =>
    cases p with
    | nil =>
      obtain ⟨rfl, rfl⟩ := List.cons.inj hx
      exact ⟨[], s, rfl, List.not_mem_nil, Nat.le_refl 0, id, h⟩
    | cons e p =>
      obtain ⟨rfl, rfl⟩ := List.cons.inj hx
      obtain ⟨he, hp⟩ := not_or.mp (mt List.mem_cons.mpr hp)
      obtain ⟨q, s', rfl, hq, hlen, -, hs'⟩ := ih hp rfl
      refine ⟨e :: q, s', rfl, ?_, by simpa using hlen, id, hs'⟩
      exact fun hm => (List.mem_cons.mp hm).elim he hq
  | @gap g s u n hg h ih =>
    -- the line feeds stand in front of the character
    obtain ⟨p', rfl, hrest⟩ : ∃ p', p = feeds (n + 1) ++ p' ∧ p' ++ d :: t = u := by
      rcases List.append_eq_append_iff.mp hx with ⟨a, ha, hau⟩ | ⟨a, ha, hau⟩
      · cases a with
        | nil => exact ⟨[], by simpa using ha.symm, by simpa using hau⟩
        | cons b a =>
          obtain ⟨rfl, -⟩ := List.cons.inj hau
          exact absurd (eq_of_mem_feeds (ha ▸ List.mem_append_right p List.mem_cons_self)) hfeed
      · exact ⟨a, ha, hau.symm⟩
    obtain ⟨q, s', rfl, hq, hlen, -, hs'⟩ := ih (fun hm => hp (List.mem_append_right _ hm)) hrest
    have hroom : n + 1 ≤ g.length := hg.room.resolve_left Bool.false_ne_true
    have hdg : d ∉ g := by
      intro hm
      rw [hg.layout d hm] at hd
      cases hd
    refine ⟨g ++ q, s', by simp, ?_, ?_, ?_, hs'⟩
    · rw [List.mem_append, not_or]
      exact ⟨hdg, hq⟩
    · simp only [List.length_append, feeds, List.length_replicate]
      omega
    · intro _
      obtain ⟨b, g, rfl⟩ := List.exists_cons_of_ne_nil hg.ne_nil
      exact isBlank_of_isLayout (hg.layout b List.mem_cons_self)

/-- Something else than spaces, tabs and line feeds is still there. -/
theorem exists_of_exists (h : Respaced grows s t) (hs : ∃ c ∈ s, isLayout c = false) :
    ∃ c ∈ t, isLayout c = false := by
  have hnone : ∀ {g : Text} {c : Char}, (∀ d ∈ g, isLayout d = true) → c ∈ g →
      isLayout c = false → False := by
    intro g c hg hm hc
    rw [hg c hm] at hc
    cases hc
  induction h with
  | ends n layout =>
    obtain ⟨c, hm, hc⟩ := hs
    exact (hnone layout hm hc).elim
  | char d h ih =>
    obtain ⟨c, hm, hc⟩ := hs
    rcases List.mem_cons.mp hm with rfl | hm
    · exact ⟨c, List.mem_cons_self, hc⟩
    · obtain ⟨e, he, helayout⟩ := ih ⟨c, hm, hc⟩
      exact ⟨e, List.mem_cons_of_mem d he, helayout⟩
  | gap hg _ ih =>
    obtain ⟨c, hm, hc⟩ := hs
    rcases List.mem_append.mp hm with hm | hm
    · exact (hnone hg.layout hm hc).elim
    · obtain ⟨e, he, helayout⟩ := ih ⟨c, hm, hc⟩
      exact ⟨e, List.mem_append_right _ he, helayout⟩

end Respaced

/-! ## The ends of lines -/

/-- **Spaces and tabs at the ends of lines are taken away**, which makes no text longer. -/
theorem respaced_trimmed (ls : List Text) :
    Respaced false (ofLines ls) (ofLines (ls.map (dropEndWhile isSpaceTab))) := by
  induction ls with
  | nil => exact .nil
  | cons l ls ih =>
    obtain ⟨x, hx, hspaces⟩ := exists_dropEndWhile isSpaceTab l
    have hlayout : ∀ c ∈ x, isLayout c = true := fun c hc => isLayout_of_isSpaceTab (hspaces c hc)
    rw [List.map_cons]
    generalize dropEndWhile isSpaceTab l = k at hx ⊢
    subst hx
    cases ls with
    | nil =>
      have hend : Respaced false (k ++ x) (k ++ feeds 0) := (Respaced.ends 0 hlayout).append_left k
      have hnone : k ++ feeds 0 = k := List.append_nil k
      rwa [hnone] at hend
    | cons m ms =>
      have hfeed : ∀ c ∈ x ++ ['\n'], isLayout c = true := by
        intro c hc
        rcases List.mem_append.mp hc with hc | hc
        · exact hlayout c hc
        · rw [List.mem_singleton.mp hc]
          rfl
      have hone : Gap false (x ++ ['\n']) 0 := ⟨hfeed, by simp, fun _ => ⟨x, rfl, hspaces⟩, .inr (by simp)⟩
      have hgap := (Respaced.gap hone ih).append_left k
      have hassoc : k ++ x ++ '\n' :: ofLines (m :: ms) = k ++ (x ++ ['\n'] ++ ofLines (m :: ms)) := by
        simp only [List.append_assoc, List.cons_append, List.nil_append]
      rw [ofLines_cons (l := k ++ x) (List.cons_ne_nil m ms), ofLines_cons (l := k) (by simp), hassoc]
      exact hgap

end EntityScaffold.Text
