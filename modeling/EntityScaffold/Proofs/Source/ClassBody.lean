import EntityScaffold.Proofs.Source.Members
import EntityScaffold.Proofs.Source.ReadBack

/-!
# Reading a class body back

The text between the braces of a class, as it is put together from the rows of its members: one
blank line between neighbours, everything behind one indentation.

* `behind` — the text behind a member; `body` — the whole text between the braces.
* `itemsOf_body` — the items of the body are the members with one gap between neighbours.
* `closingBrace?_body` — the brace that closes the class is the one behind the body.
* `detectIndent_body` — the indentation is found again.
* `parseText_of_parts` — a text is read as the class that is made of an opening, a body and a closing.
-/

set_option autoImplicit false

namespace EntityScaffold.Source

open Text

/-- What stands behind a member: the other members behind an empty line each, and a line feed.
`f` is the side of the rows that is looked at, their text or what the mask shows. -/
def behind (f : Row → Text) (i : Text) : List (List Row) → Text
  | [] => ['\n']
  | rows :: more => ('\n' :: '\n' :: i) ++ (hung i (rows.map f) ++ behind f i more)

/-- What stands between the braces of a class that begins with the member `rows`. -/
def body (f : Row → Text) (i : Text) (rows : List Row) (more : List (List Row)) : Text :=
  ('\n' :: i) ++ (hung i (rows.map f) ++ behind f i more)

/-- A member with its rows. -/
abbrev WrittenMember := Member × List Row

/-- The members are those of the rows. -/
def AllTidy (ps : List WrittenMember) : Prop := ∀ p ∈ ps, Tidy p.1 p.2

def rowsOf (ps : List WrittenMember) : List (List Row) := ps.map Prod.snd

section

variable {i : Text} {p : WrittenMember} {ps : List WrittenMember}

theorem shows_written (hi : IsIndent i) (h : Tidy p.1 p.2) :
    Shows (hung i (p.2.map (·.text))) (hung i (p.2.map (·.shown))) := by
  obtain ⟨r, rs, hrows, _⟩ := h.flush
  rw [hrows]
  exact shows_hung hi fun q hq => (h.sound q (hrows ▸ hq)).shows

theorem shows_gap (hi : IsIndent i) : Shows ('\n' :: '\n' :: i) ('\n' :: '\n' :: i) :=
  (Shows.code (t := ['\n', '\n']) (by decide)).append hi.shows

theorem shows_behind (hi : IsIndent i) (h : AllTidy ps) :
    Shows (behind (·.text) i (rowsOf ps)) (behind (·.shown) i (rowsOf ps)) := by
  induction ps with
  | nil => exact Shows.code (t := ['\n']) (by decide)
  | cons p ps ih =>
    have hrest := ih fun q hq => h q (List.mem_cons_of_mem p hq)
    exact (shows_gap hi).append ((shows_written hi (h p (by simp))).append hrest)

theorem shows_body (hi : IsIndent i) (hp : Tidy p.1 p.2) (h : AllTidy ps) :
    Shows (body (·.text) i p.2 (rowsOf ps)) (body (·.shown) i p.2 (rowsOf ps)) := by
  have hgap : Shows ('\n' :: i) ('\n' :: i) :=
    (Shows.code (t := ['\n']) (by decide)).append hi.shows
  exact hgap.append ((shows_written hi hp).append (shows_behind hi h))

/-! ## The items -/

theorem isGap_of_indent (hi : IsIndent i) : ∀ c ∈ i, isGap c = true := by
  intro c hc
  have := hi c hc
  simp only [isSpaceTab, Bool.or_eq_true, beq_iff_eq] at this
  rcases this with rfl | rfl <;> decide

theorem head_behind (more : List (List Row)) :
    ∃ t u, behind (·.text) i more = '\n' :: t ∧ behind (·.shown) i more = '\n' :: u := by
  cases more with
  | nil => exact ⟨[], [], rfl, rfl⟩
  | cons rows more => exact ⟨_, _, rfl, rfl⟩

theorem zip_parts {g s m r v : Text} (h : m.length = s.length) :
    (g ++ (s ++ r)).zip (g ++ (m ++ v)) = g.zip g ++ (s.zip m ++ r.zip v) := by
  rw [List.zip_append rfl, List.zip_append h.symm]

theorem itemsFrom_behind (hi : IsIndent i) (h : AllTidy ps) (fuel line : Nat) (before : Text) :
    itemsFrom (fuel + ps.length + 1) line before true
        ((behind (·.text) i (rowsOf ps)).zip (behind (·.shown) i (rowsOf ps))) =
      .ok (ps.flatMap fun p => [.gap, .member p.1]) := by
  induction ps generalizing line before with
  | nil => rfl
  | cons p ps ih =>
    have hp := h p (by simp)
    have hgap : ∀ c ∈ '\n' :: '\n' :: i, isGap c = true := by
      intro c hc
      simp only [List.mem_cons] at hc
      rcases hc with rfl | rfl | hc
      · decide
      · decide
      · exact isGap_of_indent hi c hc
    have hbefore : lastLine (before ++ '\n' :: '\n' :: i) = i := by
      have := lastLine_append (s := before ++ ['\n']) (hi.notMem (c := '\n') (by decide))
      simpa using this
    have hrest : ∀ cell ∈ ((behind (·.text) i (rowsOf ps)).zip
        (behind (·.shown) i (rowsOf ps))).head?, cell.1 = '\n' := by
      obtain ⟨t, u, ht, hu⟩ := head_behind (i := i) (rowsOf ps)
      rw [ht, hu]
      intro cell hc
      have : cell = ('\n', '\n') := by simpa using hc.symm
      rw [this]
    have hcount : decide (2 ≤ countChar '\n' ('\n' :: '\n' :: i)) = true := by
      simp [countChar]
    obtain ⟨line', before', hstep⟩ := itemsFrom_member (fuel + ps.length + 1) line true
      hp.legible hi hgap hbefore hrest
    rw [ih fun q hq => h q (List.mem_cons_of_mem p hq)] at hstep
    have hcells : (behind (·.text) i (rowsOf (p :: ps))).zip (behind (·.shown) i (rowsOf (p :: ps)))
        = ('\n' :: '\n' :: i).zip ('\n' :: '\n' :: i) ++ (cellsOf i p.2 ++
          (behind (·.text) i (rowsOf ps)).zip (behind (·.shown) i (rowsOf ps))) :=
      zip_parts (length_hung hi hp.legible)
    rw [hcells, List.length_cons, ← Nat.add_assoc, hstep, hcount]
    rfl

theorem length_behind (more : List (List Row)) :
    more.length < (behind (·.text) i more).length := by
  induction more with
  | nil => exact Nat.one_pos
  | cons rows more ih =>
    simp only [behind, List.length_append, List.length_cons]
    omega

/-- **The items of a body are its members**, with one gap between neighbours. -/
theorem itemsOf_body (hi : IsIndent i) (hp : Tidy p.1 p.2) (h : AllTidy ps) (line : Nat) :
    itemsOf line ((body (·.text) i p.2 (rowsOf ps)).zip (body (·.shown) i p.2 (rowsOf ps))) =
      .ok (spaced (p.1 :: ps.map Prod.fst)) := by
  have hgap : ∀ c ∈ '\n' :: i, isGap c = true := by
    intro c hc
    rcases List.mem_cons.mp hc with rfl | hc
    · decide
    · exact isGap_of_indent hi c hc
  have hbefore : lastLine ([] ++ '\n' :: i) = i :=
    lastLine_append (hi.notMem (by decide))
  have hrest : ∀ cell ∈ ((behind (·.text) i (rowsOf ps)).zip
      (behind (·.shown) i (rowsOf ps))).head?, cell.1 = '\n' := by
    obtain ⟨t, u, ht, hu⟩ := head_behind (i := i) (rowsOf ps)
    rw [ht, hu]
    intro cell hc
    have : cell = ('\n', '\n') := by simpa using hc.symm
    rw [this]
  have hcells : (body (·.text) i p.2 (rowsOf ps)).zip (body (·.shown) i p.2 (rowsOf ps)) =
      ('\n' :: i).zip ('\n' :: i) ++ (cellsOf i p.2 ++
        (behind (·.text) i (rowsOf ps)).zip (behind (·.shown) i (rowsOf ps))) :=
    zip_parts (length_hung hi hp.legible)
  -- every member takes a cell, so there is fuel for all of them
  obtain ⟨fuel, hfuel⟩ : ∃ fuel,
      ((body (·.text) i p.2 (rowsOf ps)).zip (body (·.shown) i p.2 (rowsOf ps))).length =
        fuel + ps.length + 1 := by
    have hlen : (body (·.text) i p.2 (rowsOf ps)).length =
        (body (·.shown) i p.2 (rowsOf ps)).length := (shows_body hi hp h).length.symm
    have hbehind := length_behind (i := i) (rowsOf ps)
    rw [List.length_zip, ← hlen, Nat.min_self]
    simp only [body, List.length_append, List.length_cons, rowsOf, List.length_map] at hbehind ⊢
    exact ⟨i.length + 1 + ((hung i (p.2.map (·.text))).length +
      (behind (·.text) i (ps.map Prod.snd)).length) - ps.length - 1, by omega⟩
  obtain ⟨line', before', hstep⟩ := itemsFrom_member (fuel + ps.length + 1) line false
    hp.legible hi hgap hbefore hrest
  rw [itemsFrom_behind hi h] at hstep
  rw [itemsOf, hfuel, hcells, hstep, spaced_cons, List.flatMap_map]
  rfl

/-! ## The end of the body, and its indentation -/

theorem closingBrace?_indent (hi : IsIndent i) {g : Text} (hg : ∀ c ∈ g, c = '\n') (u : Text)
    (depth : Nat) :
    closingBrace? depth (g ++ i ++ u) = (closingBrace? depth u).map ((g ++ i).length + ·) := by
  refine closingBrace?_append ?_ ?_ depth
  · simp only [List.mem_append, not_or]
    exact ⟨fun h => absurd (hg _ h) (by decide), hi.notMem (by decide)⟩
  · simp only [List.mem_append, not_or]
    exact ⟨fun h => absurd (hg _ h) (by decide), hi.notMem (by decide)⟩

theorem closingBrace?_behind (hi : IsIndent i) (h : AllTidy ps) (u : Text) :
    closingBrace? 1 (behind (·.shown) i (rowsOf ps) ++ u) =
      (closingBrace? 1 u).map ((behind (·.shown) i (rowsOf ps)).length + ·) := by
  induction ps with
  | nil => exact closingBrace?_append (t := ['\n']) (by decide) (by decide) 1
  | cons p ps ih =>
    have hp := ((h p (by simp)).complete i hi).closing
      (behind (·.shown) i (rowsOf ps) ++ u)
    have hsplit : behind (·.shown) i (rowsOf (p :: ps)) ++ u = ['\n', '\n'] ++ i ++
        (hung i (p.2.map (·.shown)) ++ (behind (·.shown) i (rowsOf ps) ++ u)) := by
      simp [behind, rowsOf]
    rw [hsplit, closingBrace?_indent hi (by simp), hp,
      ih fun q hq => h q (List.mem_cons_of_mem p hq), Option.map_map, Option.map_map]
    congr 1
    funext n
    simp only [behind, rowsOf, Function.comp_apply, List.length_append, List.length_cons,
      List.length_nil, List.map_cons]
    omega

/-- The brace that closes the class is looked for behind the body. -/
theorem closingBrace?_body (hi : IsIndent i) (hp : Tidy p.1 p.2) (h : AllTidy ps) (u : Text) :
    closingBrace? 1 (body (·.shown) i p.2 (rowsOf ps) ++ u) =
      (closingBrace? 1 u).map ((body (·.shown) i p.2 (rowsOf ps)).length + ·) := by
  have hclose := (hp.complete i hi).closing (behind (·.shown) i (rowsOf ps) ++ u)
  have hsplit : body (·.shown) i p.2 (rowsOf ps) ++ u = ['\n'] ++ i ++
      (hung i (p.2.map (·.shown)) ++ (behind (·.shown) i (rowsOf ps) ++ u)) := by
    simp [body]
  rw [hsplit, closingBrace?_indent hi (by simp), hclose, closingBrace?_behind hi h, Option.map_map,
    Option.map_map]
  congr 1
  funext n
  simp only [body, Function.comp_apply, List.length_append, List.length_cons, List.length_nil]
  omega

/-- The indentation of the body is found again. -/
theorem detectIndent_body (hi : IsIndent i) (hne : i ≠ []) (hp : Tidy p.1 p.2) :
    ClassFile.detectIndent (body (·.text) i p.2 (rowsOf ps)) = i := by
  obtain ⟨r, rs, hrows, hflush⟩ := hp.flush
  have hr := hp.sound r (by rw [hrows]; exact List.mem_cons_self)
  have hnl : '\n' ∉ i := hi.notMem (by decide)
  have hline : '\n' ∉ i ++ r.text := (hr.inked.indented hnl).oneLine
  -- what stands behind the first line begins with a line feed
  obtain ⟨t, ht⟩ : ∃ t, hung i (p.2.map (·.text)) ++ behind (·.text) i (rowsOf ps) =
      r.text ++ '\n' :: t := by
    rw [hrows]
    cases rs with
    | nil =>
      obtain ⟨t, u, ht, -⟩ := head_behind (i := i) (rowsOf ps)
      exact ⟨t, by rw [ht]; rfl⟩
    | cons q qs =>
      refine ⟨ofLines ((q :: qs).map fun r => i ++ r.text) ++ behind (·.text) i (rowsOf ps), ?_⟩
      simp only [List.map_cons, hung]
      rw [ofLines_cons (by simp)]
      simp [Function.comp_def]
  have hlines : ∃ ls, lines (body (·.text) i p.2 (rowsOf ps)) = [] :: (i ++ r.text) :: ls := by
    have hbody : body (·.text) i p.2 (rowsOf ps) = [] ++ '\n' :: ((i ++ r.text) ++ '\n' :: t) := by
      rw [body, ht]
      simp
    rw [hbody, lines, splitAt_append (by simp), splitAt_append hline]
    exact ⟨_, rfl⟩
  obtain ⟨ls, hls⟩ := hlines
  have hcontent : isBlankText (i ++ r.text) = false :=
    (hr.inked.indented hnl).not_all fun _ h => h
  have hlead : leading (i ++ r.text) = i := by
    rw [leading_append hi, leading_of_flush hflush, List.append_nil]
  have hfind : ([] :: (i ++ r.text) :: ls).find? (!isBlankText ·) = some (i ++ r.text) := by
    have hnil : isBlankText [] = true := rfl
    simp [hnil, hcontent]
  rw [ClassFile.detectIndent, hls, hfind]
  simp only [hlead, if_neg hne]

end

/-! ## The class around the body -/

/-- **A text is cut behind the brace that opens the class and in front of the one that closes it.** -/
theorem parseText_of_parts {opening body closing shown shownBody c : Text} {header : ClassHeader}
    {items : List Item}
    (hmask : mask (opening ++ (body ++ closing)) = .ok (shown ++ (shownBody ++ '\x7d' :: c)))
    (hopening : shown.length = opening.length) (hbody : shownBody.length = body.length)
    (hheaders : classHeaders (shown ++ (shownBody ++ '\x7d' :: c)) = [header])
    (hbrace : header.brace + 1 = opening.length)
    (hclose : closingBrace? 1 (shownBody ++ '\x7d' :: c) = some shownBody.length)
    (hblank : isBlankText c = true)
    (hitems : itemsOf (ClassFile.lineOf (opening ++ (body ++ closing)) opening.length)
      (body.zip shownBody) = .ok items) :
    ClassFile.parseText (opening ++ (body ++ closing)) =
      .ok { className := header.className, opening, items, closing
            indent := ClassFile.detectIndent body, path := none } := by
  have hdrop : (shown ++ (shownBody ++ '\x7d' :: c)).drop opening.length =
      shownBody ++ '\x7d' :: c := List.drop_left' hopening
  have hafter : (shown ++ (shownBody ++ '\x7d' :: c)).drop
      (opening.length + shownBody.length + 1) = c := by
    rw [Nat.add_assoc, ← List.drop_drop, hdrop, ← List.drop_drop, List.drop_left]
    rfl
  have hcells : (((opening ++ (body ++ closing)).zip (shown ++ (shownBody ++ '\x7d' :: c))).drop
      opening.length).take shownBody.length = body.zip shownBody := by
    rw [List.zip_append hopening.symm, List.zip_append hbody.symm,
      List.drop_left' (by simp [hopening]), List.take_left' (by simp [hbody])]
  have htake : (opening ++ (body ++ closing)).take opening.length = opening := List.take_left
  have hclosing : (opening ++ (body ++ closing)).drop (opening.length + shownBody.length) =
      closing := by
    rw [hbody, ← List.drop_drop, List.drop_left, List.drop_left]
  rw [ClassFile.parseText, hmask]
  simp only [bind, Except.bind, hheaders, hbrace, hdrop, hclose, hafter, hblank, hcells, hitems,
    htake, hclosing, rawText_zip hbody, Bool.not_true, Bool.false_eq_true, if_false]
  rfl

end EntityScaffold.Source
