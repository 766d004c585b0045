import EntityScaffold.Proofs.Source.Replacing
import EntityScaffold.Proofs.Text.Respaced

/-!
# The gaps that the file layout fills

All passes of the layout but the first put line feeds in the place of gaps, and so respace the text.

* `behindLineFeeds?_eq_some_iff`, `importLine?_eq_some_iff` — what the rules look for.
* `FillsGaps` — a rule that replaces gaps only; `Replaced.respaced` — so does the pass.
* `Throughout.respaced` — what a pass keeps at every place of a text.
-/

set_option autoImplicit false

namespace EntityScaffold.Source

open Text

/-! ## What the rules look for -/

theorem takeWhile_lineFeed (t : Text) : ∃ n, t.takeWhile (· == '\n') = feeds n :=
  ⟨_, List.eq_replicate_of_mem fun c hc => by
    simpa using List.all_eq_true.mp List.all_takeWhile c hc⟩

theorem feeds_succ (n : Nat) (t : Text) : feeds (n + 1) ++ t = '\n' :: (feeds n ++ t) := rfl

theorem dropWhile_feeds (n : Nat) {t : Text} (ht : t.head? ≠ some '\n') :
    (feeds n ++ t).dropWhile (· == '\n') = t := by
  have hall : ∀ c ∈ feeds n, (c == '\n') = true := fun c hc => by simp [eq_of_mem_feeds hc]
  rw [List.dropWhile_append_of_pos hall]
  cases t with
  | nil => rfl
  | cons c t =>
    have hc : c ≠ '\n' := by simpa using ht
    simp [hc]

theorem dropWhile_spaces {x t : Text} (hx : ∀ c ∈ x, isSpaceTab c = true)
    (ht : ∀ c ∈ t.head?, isSpaceTab c = false) : (x ++ t).dropWhile isSpaceTab = t := by
  rw [List.dropWhile_append_of_pos hx, dropWhile_of_head ht]

theorem head?_ne_lineFeed {t : Text} (h : t.head?.any (!isBlank ·) = true) :
    t.head? ≠ some '\n' := by
  intro hhead
  rw [hhead] at h
  revert h
  decide

/-- Spaces and tabs, line feeds, and then something that is not blank. -/
theorem behindLineFeeds?_eq_some_iff {t rest : Text} : behindLineFeeds? t = some rest ↔
    ∃ x n, t = x ++ (feeds (n + 1) ++ rest) ∧ (∀ c ∈ x, isSpaceTab c = true) ∧
      rest.head?.any (!isBlank ·) = true := by
  constructor
  · intro h
    rw [behindLineFeeds?] at h
    split at h
    · rename_i hhead
      rw [Bool.and_eq_true, decide_eq_true_eq] at hhead
      cases h
      have hspaces : ∀ c ∈ t.takeWhile isSpaceTab, isSpaceTab c = true := fun c hc =>
        List.all_eq_true.mp List.all_takeWhile c hc
      obtain ⟨n, hn⟩ := takeWhile_lineFeed (t.dropWhile isSpaceTab)
      have hsplit : t = t.takeWhile isSpaceTab ++
          (feeds n ++ (t.dropWhile isSpaceTab).dropWhile (· == '\n')) := by
        rw [← hn, List.takeWhile_append_dropWhile, List.takeWhile_append_dropWhile]
      cases n with
      | zero =>
        -- a line feed would have been taken
        cases hd : t.dropWhile isSpaceTab with
        | nil =>
          rw [hd] at hhead
          cases hhead.1
        | cons c u =>
          rw [hd] at hhead hn
          obtain rfl := Option.some.inj hhead.1
          cases hn
      | succ n => exact ⟨_, n, hsplit, hspaces, hhead.2⟩
    · cases h
  · rintro ⟨x, n, rfl, hx, hrest⟩
    have hfirst : (x ++ (feeds (n + 1) ++ rest)).dropWhile isSpaceTab = feeds (n + 1) ++ rest :=
      dropWhile_spaces hx fun c hc => by
        rw [feeds_succ] at hc
        obtain rfl := Option.some.inj hc
        decide
    have hsecond := dropWhile_feeds (n + 1) (head?_ne_lineFeed hrest)
    have hhead : (feeds (n + 1) ++ rest).head? = some '\n' := rfl
    rw [behindLineFeeds?]
    simp only [hfirst, hsecond, hrest, hhead, decide_true, Bool.true_and, if_true]

theorem OneFeed.behindLineFeeds? {u v : Text} (h : Respaced.OneFeed u v) :
    Source.behindLineFeeds? u = some v := by
  obtain ⟨x, rfl, hx, hv⟩ := h
  exact behindLineFeeds?_eq_some_iff.mpr ⟨x, 0, rfl, hx, hv⟩

/-- An import, spaces and tabs, and a line feed. -/
theorem importLine?_eq_some_iff {t rest : Text} : importLine? t = some rest ↔
    ∃ x y, t = "use" ++ (x ++ ';' :: (y ++ '\n' :: rest)) ∧ ';' ∉ x ∧
      x.head?.any isBlank = true ∧ 2 ≤ x.length ∧ ∀ c ∈ y, isSpaceTab c = true := by
  constructor
  · intro h
    simp only [importLine?, Option.bind_eq_bind, Option.bind_eq_some_iff] at h
    obtain ⟨u, hu, v, hv, w, hw, h⟩ := h
    split at h
    · rename_i hclause
      rw [Bool.and_eq_true, decide_eq_true_eq] at hclause
      cases h
      refine ⟨u.takeWhile (· != ';'), v.takeWhile isSpaceTab, ?_, ?_, hclause.1, hclause.2, ?_⟩
      · have hclause : u = u.takeWhile (· != ';') ++ ';' :: v := by
          have hsemi := eq_append_of_after? hv
          conv => lhs; rw [← List.takeWhile_append_dropWhile (p := (· != ';')) (l := u), hsemi]
          rfl
        have hspaces : v = v.takeWhile isSpaceTab ++ '\n' :: rest := by
          have hfeed := eq_append_of_after? hw
          conv => lhs; rw [← List.takeWhile_append_dropWhile (p := isSpaceTab) (l := v), hfeed]
          rfl
        rw [← hspaces, ← hclause]
        exact eq_append_of_after? hu
      · intro hm
        have := List.all_eq_true.mp List.all_takeWhile _ hm
        simp at this
      · exact fun c hc => List.all_eq_true.mp List.all_takeWhile c hc
    · cases h
  · rintro ⟨x, y, rfl, hx, hhead, hlen, hy⟩
    have hclause : ∀ c ∈ x, (c != ';') = true := fun c hc => by
      rw [bne_iff_ne]
      rintro rfl
      exact hx hc
    have htake : (x ++ ';' :: (y ++ '\n' :: rest)).takeWhile (· != ';') = x := by
      rw [List.takeWhile_append_of_pos hclause]
      simp
    have hdrop : (x ++ ';' :: (y ++ '\n' :: rest)).dropWhile (· != ';') =
        ';' :: (y ++ '\n' :: rest) := by
      rw [List.dropWhile_append_of_pos hclause]
      simp
    have hspaces : (y ++ '\n' :: rest).dropWhile isSpaceTab = '\n' :: rest :=
      dropWhile_spaces hy fun c hc => by
        obtain rfl := Option.some.inj hc
        decide
    have hsemi : after? ";" (';' :: (y ++ '\n' :: rest)) = some (y ++ '\n' :: rest) :=
      after?_append ";" _
    have hfeed : after? "\n" ('\n' :: rest) = some rest := after?_append "\n" _
    simp only [importLine?, after?_append, Option.bind_eq_bind, Option.bind_some, htake, hdrop, hsemi,
      hspaces, hfeed, hhead, hlen, decide_true, Bool.and_self, if_true]

/-! ## Rules that fill gaps -/

/-- The rule puts line feeds in the place of a gap. -/
def FillsGaps (grows : Bool) (rule : Replacement) : Prop :=
  ∀ prev t new rest, rule prev t = some (new, rest) → ∃ p g n,
    t = p ++ (g ++ rest) ∧ new = p ++ feeds (n + 1) ∧ Gap grows g n

/-- **A pass that fills gaps respaces the text.** -/
theorem Replaced.respaced {grows : Bool} {rule : Replacement} (hrule : FillsGaps grows rule)
    {prev : Option Char} {s t : Text} (h : Replaced rule prev s t) : Respaced grows s t := by
  induction h with
  | nil => exact .nil
  | keep _ _ ih => exact .char _ ih
  | @swap prev old new s t found _ _ ih =>
    obtain ⟨p, g, n, hold, rfl, hg⟩ := hrule _ _ _ _ found
    rw [hold, List.append_assoc]
    exact (Respaced.gap hg ih).append_left p

theorem gap_spaces {x : Text} (hx : ∀ c ∈ x, isSpaceTab c = true) (n : Nat) :
    Gap true (x ++ feeds (n + 1)) 1 where
  layout c hc := by
    rcases List.mem_append.mp hc with hc | hc
    · exact isLayout_of_isSpaceTab (hx c hc)
    · rw [eq_of_mem_feeds hc]
      rfl
  last := by rw [List.getLast?_append, getLast?_feeds, Option.some_or]
  one h := by cases h
  room := .inl rfl

theorem fillsGaps_separateStrictTypes : FillsGaps true separateStrictTypes := by
  intro prev t new rest h
  simp only [separateStrictTypes, Option.bind_eq_bind, Option.bind_eq_some_iff,
    Option.some.injEq, Prod.mk.injEq] at h
  obtain ⟨u, hu, behind, hb, rfl, rfl⟩ := h
  obtain ⟨x, n, rfl, hx, -⟩ := behindLineFeeds?_eq_some_iff.mp hb
  refine ⟨strictTypes, x ++ feeds (n + 1), 1, ?_, rfl, gap_spaces hx n⟩
  rw [eq_append_of_after? hu, List.append_assoc]

theorem respaced_separateOpenTag (t : Text) : Respaced true t (separateOpenTag t) := by
  rw [separateOpenTag]
  split
  · rename_i rest h
    split
    · exact .refl t
    · obtain ⟨u, hu, hb⟩ := Option.bind_eq_some_iff.mp h
      obtain ⟨x, n, rfl, hx, -⟩ := behindLineFeeds?_eq_some_iff.mp hb
      rw [eq_append_of_after? hu, List.append_assoc, ← List.append_assoc x]
      exact (Respaced.gap (gap_spaces hx n) (.refl rest)).append_left openTag
  · exact .refl t

/-- What an import is replaced by, and what stands behind it. -/
theorem eq_of_separateImport {prev : Option Char} {t new rest : Text}
    (h : separateImport prev t = some (new, rest)) : prev.all (· == '\n') = true ∧
      importLine? t = some rest ∧ beginsClass rest = true ∧ ∃ x y,
      t = "use" ++ (x ++ ';' :: (y ++ '\n' :: rest)) ∧
      new = "use" ++ (x ++ ';' :: (y ++ feeds 2)) ∧ ';' ∉ x ∧ ∀ c ∈ y, isSpaceTab c = true := by
  rw [separateImport] at h
  split at h
  · rename_i hprev
    simp only [Option.bind_eq_bind, Option.bind_eq_some_iff] at h
    obtain ⟨u, hu, h⟩ := h
    split at h
    · rename_i hclass
      simp only [Option.some.injEq, Prod.mk.injEq] at h
      obtain ⟨rfl, rfl⟩ := h
      refine ⟨hprev, hu, hclass, ?_⟩
      obtain ⟨x, y, rfl, hx, -, -, hy⟩ := importLine?_eq_some_iff.mp hu
      refine ⟨x, y, rfl, ?_, hx, hy⟩
      have hline : "use" ++ (x ++ ';' :: (y ++ '\n' :: u)) =
          ("use" ++ (x ++ ';' :: (y ++ ['\n']))) ++ u := by
        simp only [List.append_assoc, List.cons_append, List.nil_append]
      rw [hline, List.length_append, Nat.add_sub_cancel, List.take_left]
      simp only [List.append_assoc, List.cons_append]
      rfl
    · cases h
  · cases h

theorem fillsGaps_separateImport : FillsGaps true separateImport := by
  intro prev t new rest h
  obtain ⟨-, -, -, x, y, rfl, rfl, -, hy⟩ := eq_of_separateImport h
  refine ⟨"use" ++ (x ++ ';' :: y), ['\n'], 1, ?_, ?_, gap_spaces (x := []) (by simp) 0⟩
  · simp only [List.append_assoc, List.cons_append, List.nil_append]
  · simp only [List.append_assoc, List.cons_append]

theorem eq_of_collapseLineFeeds {prev : Option Char} {t new rest : Text}
    (h : collapseLineFeeds prev t = some (new, rest)) :
    new = feeds 2 ∧ rest.head? ≠ some '\n' ∧ ∃ n, t = feeds (n + 3) ++ rest := by
  rw [collapseLineFeeds] at h
  split at h
  · rename_i hs
    simp only [Option.some.injEq, Prod.mk.injEq] at h
    obtain ⟨rfl, rfl⟩ := h
    obtain ⟨u, hu⟩ := Option.isSome_iff_exists.mp hs
    have ht : t = '\n' :: '\n' :: '\n' :: u := eq_append_of_after? hu
    obtain ⟨n, hn⟩ := takeWhile_lineFeed u
    refine ⟨rfl, fun hhead => ?_, n, ?_⟩
    · have := List.head?_dropWhile_not (· == '\n') t
      rw [hhead] at this
      simp at this
    · have hdrop : t.dropWhile (· == '\n') = u.dropWhile (· == '\n') := by
        rw [ht]
        simp
      rw [hdrop, ht]
      conv => lhs; rw [← List.takeWhile_append_dropWhile (p := (· == '\n')) (l := u), hn]
      rfl
  · cases h

theorem fillsGaps_collapseLineFeeds : FillsGaps false collapseLineFeeds := by
  intro prev t new rest h
  obtain ⟨rfl, -, n, rfl⟩ := eq_of_collapseLineFeeds h
  have hgap : Gap true (feeds (n + 3)) 1 := gap_spaces (x := []) (by simp) (n + 2)
  refine ⟨[], feeds (n + 3), 1, rfl, rfl, hgap.layout, hgap.last, hgap.one, .inr ?_⟩
  simp [feeds]

/-! ## What a pass keeps -/

/-- **What holds at every place of a text still does when it has been respaced**, if it holds at
line feeds anyway, and otherwise does not depend on the gaps behind the place. -/
theorem Throughout.respaced {P : Option Char → Text → Prop} {grows : Bool}
    (hfeed : ∀ p u, P p ('\n' :: u))
    (hkeep : ∀ p c u v, Respaced grows u v → P p (c :: u) → P p (c :: v)) {s t : Text}
    (h : Respaced grows s t) {prev : Option Char} (hs : Throughout P prev s) :
    Throughout P prev t := by
  have hfeeds : ∀ (n : Nat) (p : Option Char) (c : Char) (u : Text), c ∈ feeds n → P p (c :: u) := by
    intro n p c u hc
    rw [eq_of_mem_feeds hc]
    exact hfeed p u
  induction h generalizing prev with
  | ends n _ =>
    have hend : Throughout P prev (feeds n ++ []) := Throughout.append (hfeeds n) trivial
    rwa [List.append_nil] at hend
  | char c h ih => exact ⟨hkeep prev c _ _ h hs.1, ih hs.2⟩
  | @gap g s t n hg _ ih =>
    have hbehind : Throughout P (some '\n') s := by
      have := hs.drop
      rwa [hg.last, Option.some_or] at this
    refine Throughout.append (hfeeds (n + 1)) ?_
    rw [getLast?_feeds, Option.some_or]
    exact ih hbehind

end EntityScaffold.Source
