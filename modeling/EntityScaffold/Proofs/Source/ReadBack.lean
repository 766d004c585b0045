import EntityScaffold.Proofs.Source.Rows
import EntityScaffold.Source.ClassFile

/-!
# Reading members back

A class body that has been put together from members, with one blank line between neighbours, is
cut into exactly these members again.

* `Legible` — a member whose rows are read as that member.
* `Tidy` — a legible member whose rows can stand in a class body.
* `itemsFrom_member` — one step: the member at the beginning of the cells.
* `itemsOf_body` — by induction on the members, the whole body.
* `parseMember_of_legible`, `parseMember_of_tidy` — a member that stands alone.
* `Legible.of_shown` — a property is read from what the mask shows of it.
-/

set_option autoImplicit false

namespace EntityScaffold.Source

open Text

/-- The rows are those of the member, and what is read of them is that member. -/
structure Tidy (m : Member) (rows : List Row) : Prop where
  text : m.text = ofLines (rows.map (·.text))
  reads : ∀ line, Member.ofText m.text line = .ok m
  flush : ∃ r rs, rows = r :: rs ∧ Flush r.text
  sound : ∀ r ∈ rows, r.Sound
  complete : ∀ i, IsIndent i → Complete (hung i (rows.map (·.shown)))

/-- The rows are those of the member, and what is read of them is that member, whatever else they
may be taken for in a class body. -/
structure Legible (m : Member) (rows : List Row) : Prop where
  text : m.text = ofLines (rows.map (·.text))
  reads : ∀ line, Member.ofText m.text line = .ok m
  flush : ∃ r rs, rows = r :: rs ∧ Flush r.text
  shows : ∀ r ∈ rows, Shows r.text r.shown
  inked : ∀ r ∈ rows, Inked r.text
  complete : ∀ i, IsIndent i → Complete (hung i (rows.map (·.shown)))

theorem Tidy.legible {m : Member} {rows : List Row} (h : Tidy m rows) : Legible m rows where
  text := h.text
  reads := h.reads
  flush := h.flush
  shows r hr := (h.sound r hr).shows
  inked r hr := (h.sound r hr).inked
  complete := h.complete

/-! ## One member -/

theorem shownText_zip {s m : Text} (h : m.length = s.length) : shownText (s.zip m) = m := by
  rw [shownText, List.map_snd_zip (by omega)]

theorem rawText_zip {s m : Text} (h : m.length = s.length) : rawText (s.zip m) = s := by
  rw [rawText, List.map_fst_zip (by omega)]

theorem shownText_append (a b : List Cell) : shownText (a ++ b) = shownText a ++ shownText b := by
  simp [shownText]

/-- The cells up to the end of a member that is followed by nothing or a line end. -/
theorem memberCells?_append {s m : Text} (hlen : m.length = s.length) (hm : Complete m)
    {rest : List Cell} (hrest : ∀ cell ∈ rest.head?, cell.1 = '\n') :
    memberCells? (s.zip m ++ rest) = some (s.zip m) := by
  obtain ⟨block, hext⟩ := hm.extent (shownText rest)
  have hsize : (s.zip m).length = m.length := by simp [hlen]
  have hbehind : rest.takeWhile (fun cell => cell.1 != '\n') = [] := by
    cases rest with
    | nil => rfl
    | cons cell rest => simp [hrest cell (by simp)]
  rw [memberCells?, shownText_append, shownText_zip hlen, hext]
  simp only [← hsize, List.drop_left, List.take_left, hbehind]
  simp

theorem lastLine_append {s i : Text} (hi : '\n' ∉ i) : lastLine (s ++ '\n' :: i) = i := by
  have hall : ∀ c ∈ i.reverse, (c != '\n') = true := by
    intro c hc
    rw [bne_iff_ne]
    rintro rfl
    exact hi (List.mem_reverse.mp hc)
  rw [lastLine, List.reverse_append, List.reverse_cons, List.append_assoc,
    List.takeWhile_append_of_pos hall]
  simp

/-- The text of a member is found again behind any indentation. -/
theorem memberText_hung {i : Text} (hi : IsIndent i) {m : Member} {rows : List Row}
    (h : Legible m rows) : memberText i (hung i (rows.map (·.text))) = m.text := by
  obtain ⟨r, rs, rfl, hflush⟩ := h.flush
  have hblank : isBlankText i = true := List.all_eq_true.mpr hi.isBlank
  have hink : ∀ l ∈ (r :: rs).map (·.text), Inked l := by
    intro l hl
    obtain ⟨q, hq, rfl⟩ := List.mem_map.mp hl
    exact h.inked q hq
  have hfirst : ∀ c ∈ (ofLines ((r :: rs).map (·.text))).head?, (c == '\n') = false := by
    intro c hc
    obtain ⟨d, l, hl⟩ := List.exists_cons_of_ne_nil hflush.content
    have hd : c = d := by
      cases rs with
      | nil => simpa [ofLines_singleton, hl] using hc.symm
      | cons q qs =>
        rw [List.map_cons, ofLines_cons (by simp), hl] at hc
        simpa using hc.symm
    rw [beq_eq_false_iff_ne]
    rintro rfl
    exact hflush.oneLine (by rw [hl, ← hd]; exact List.mem_cons_self)
  have hlast := last_ofLines (by simp) hink
  have hfeed : ∀ c ∈ (ofLines ((r :: rs).map (·.text))).getLast?, (c == '\n') = false := by
    intro c hc
    rw [beq_eq_false_iff_ne]
    rintro rfl
    have := hlast _ hc
    revert this
    decide
  rw [memberText, if_pos hblank, List.map_cons, indent_hung]
  rw [dedent_ofLines hi hflush fun k hk => hink k (List.mem_cons_of_mem _ hk), ← List.map_cons,
    trimWhile_of_ends hfirst hfeed, stripEnd, dropEndWhile_of_last hlast, h.text]

/-- The first character of a member is not part of a gap. -/
theorem head_hung {i : Text} {m : Member} {rows : List Row} (h : Legible m rows) :
    ∃ d t, hung i (rows.map (·.text)) = d :: t ∧ isGap d = false := by
  obtain ⟨r, rs, rfl, hflush⟩ := h.flush
  obtain ⟨d, l, hl⟩ := List.exists_cons_of_ne_nil hflush.content
  have hd : isGap d = false := by
    cases hg : isGap d with
    | false => rfl
    | true => rw [← hflush.first d (by rw [hl]; rfl), isBlank_of_isGap hg]
  cases rs with
  | nil => exact ⟨d, l, hl, hd⟩
  | cons q qs =>
    have : ∃ t, hung i ((r :: q :: qs).map (·.text)) = d :: t := by
      rw [List.map_cons, hung, List.map_cons, List.map_cons, ofLines_cons (by simp), hl]
      exact ⟨_, rfl⟩
    obtain ⟨t, ht⟩ := this
    exact ⟨d, t, ht, hd⟩

theorem length_hung {i : Text} (hi : IsIndent i) {m : Member} {rows : List Row}
    (h : Legible m rows) :
    (hung i (rows.map (·.shown))).length = (hung i (rows.map (·.text))).length := by
  obtain ⟨r, rs, rfl, _⟩ := h.flush
  exact (shows_hung hi fun q hq => h.shows q hq).length

/-- The cells of a member behind an indentation. -/
def cellsOf (i : Text) (rows : List Row) : List Cell :=
  (hung i (rows.map (·.text))).zip (hung i (rows.map (·.shown)))

/-- **The member at the beginning of the cells**, behind a gap that ends with the member's
indentation. -/
theorem itemsFrom_member (fuel line : Nat) (inside : Bool) {before gap i : Text}
    {rest : List Cell} {m : Member} {rows : List Row} (h : Legible m rows) (hi : IsIndent i)
    (hgap : ∀ c ∈ gap, isGap c = true) (hbefore : lastLine (before ++ gap) = i)
    (hrest : ∀ cell ∈ rest.head?, cell.1 = '\n') :
    ∃ line' before', itemsFrom (fuel + 1) line before inside
        (gap.zip gap ++ (cellsOf i rows ++ rest)) =
      (itemsFrom fuel line' before' true rest).map fun more =>
        (if inside && decide (2 ≤ countChar '\n' gap) then [Item.gap] else []) ++
          .member m :: more := by
  obtain ⟨d, t, hd, hdgap⟩ := head_hung (i := i) h
  have hlen := length_hung hi h
  obtain ⟨e, u, he⟩ : ∃ e u, hung i (rows.map (·.shown)) = e :: u := by
    cases hs : hung i (rows.map (·.shown)) with
    | nil => rw [hs, hd] at hlen; cases hlen
    | cons e u => exact ⟨e, u, rfl⟩
  have hcells : cellsOf i rows ++ rest = (d, e) :: (t.zip u ++ rest) := by
    rw [cellsOf, hd, he]
    rfl
  have hpos : ∀ cell ∈ gap.zip gap, isGap cell.1 = true := fun cell hc =>
    hgap _ (List.of_mem_zip hc).1
  have htake : (gap.zip gap ++ (cellsOf i rows ++ rest)).takeWhile (fun cell => isGap cell.1) =
      gap.zip gap := by
    rw [List.takeWhile_append_of_pos hpos, hcells, List.takeWhile_cons_of_neg (by simp [hdgap]),
      List.append_nil]
  have hdrop : (gap.zip gap ++ (cellsOf i rows ++ rest)).dropWhile (fun cell => isGap cell.1) =
      cellsOf i rows ++ rest := by
    rw [List.dropWhile_append_of_pos hpos, hcells, List.dropWhile_cons_of_neg (by simp [hdgap])]
  have hempty : (cellsOf i rows ++ rest).isEmpty = false := by rw [hcells]; rfl
  have hmember : memberCells? (cellsOf i rows ++ rest) = some (cellsOf i rows) :=
    memberCells?_append hlen (h.complete i hi) hrest
  have hraw : rawText (cellsOf i rows) = hung i (rows.map (·.text)) := rawText_zip hlen
  refine ⟨line + countChar '\n' gap + countChar '\n' (hung i (rows.map (·.text))),
    lastLine (i ++ hung i (rows.map (·.text))), ?_⟩
  rw [itemsFrom]
  simp only [htake, hdrop, hempty, rawText_zip (s := gap) (m := gap) rfl, hbefore, hmember, hraw,
    memberText_hung hi h, h.reads, List.drop_left, Bool.false_eq_true, if_false]
  cases itemsFrom fuel (line + countChar '\n' gap + countChar '\n' (hung i (rows.map (·.text))))
    (lastLine (i ++ hung i (rows.map (·.text)))) true rest <;> rfl

/-- **A member that stands alone is read as that member.** -/
theorem parseMember_of_legible {m : Member} {rows : List Row} (h : Legible m rows) :
    parseMember m.text = .ok m := by
  have hi : IsIndent [] := by simp [IsIndent]
  obtain ⟨r, rs, hrows, _⟩ := id h.flush
  have htext : m.text = hung [] (rows.map (·.text)) := by
    rw [h.text, hrows, List.map_cons, hung_nil]
  have hmask : mask m.text = .ok (hung [] (rows.map (·.shown))) := by
    rw [htext, hrows]
    exact mask_of_shows (shows_hung hi fun q hq => h.shows q (hrows ▸ hq))
  have hitems : itemsOf 1 (cellsOf [] rows) = .ok [.member m] := by
    have hgap : ∀ c ∈ ([] : Text), isGap c = true := by simp
    have hrest : ∀ cell ∈ ([] : List Cell).head?, cell.1 = '\n' := by simp
    have hbefore : lastLine ([] ++ []) = [] := rfl
    obtain ⟨line', before', hstep⟩ :=
      itemsFrom_member (cellsOf [] rows).length 1 false h hi hgap hbefore hrest
    have hend : ∀ f l b, itemsFrom f l b true [] = .ok [] := by
      intro f l b
      cases f <;> rfl
    rw [List.zip_nil_left, List.nil_append, List.append_nil, hend] at hstep
    exact hstep
  rw [parseMember, parseMembers, hmask]
  simp only
  have hcells : m.text.zip (hung [] (rows.map (·.shown))) = cellsOf [] rows := by
    rw [htext, cellsOf]
  rw [hcells, hitems]
  rfl

theorem parseMember_of_tidy {m : Member} {rows : List Row} (h : Tidy m rows) :
    parseMember m.text = .ok m :=
  parseMember_of_legible h.legible

/-! ## Properties with other literals -/

/-- What a property is read as depends on what the mask shows of it. -/
theorem ofText_of_mask {raw raw' : Text} {line : Nat} {p : Property} (hmask : mask raw' = mask raw)
    (h : Member.ofText raw line = .ok (.property p)) :
    Member.ofText raw' line = .ok (.property { p with text := raw' }) := by
  rw [Member.ofText] at h ⊢
  rw [hmask]
  cases hm : mask raw with
  | error e =>
    rw [hm] at h
    cases h
  | ok m =>
    rw [hm] at h
    simp only at h ⊢
    cases hmethod : methodName? (withoutAttributes m).1 with
    | some name =>
      rw [hmethod] at h
      simp only at h
      split at h <;> cases h
    | none =>
      rw [hmethod] at h
      simp only at h ⊢
      cases hproperty : propertyName? (withoutAttributes m).1 with
      | some name =>
        rw [hproperty] at h
        cases h
        rfl
      | none =>
        rw [hproperty] at h
        simp only at h
        split at h <;> cases h

/-- **A property is read from what the mask shows of it**: other rows of which the mask shows the
same are read as the same property. -/
theorem Legible.of_shown {p : Property} {rows rows' : List Row} (h : Legible (.property p) rows)
    (hshown : rows'.map (·.shown) = rows.map (·.shown))
    (hflush : ∃ r rs, rows' = r :: rs ∧ Flush r.text)
    (hshows : ∀ r ∈ rows', Shows r.text r.shown) (hinked : ∀ r ∈ rows', Inked r.text) :
    Legible (.property { p with text := ofLines (rows'.map (·.text)) }) rows' := by
  refine ⟨rfl, fun line => ?_, hflush, hshows, hinked, fun i hi => hshown ▸ h.complete i hi⟩
  refine ofText_of_mask ?_ (h.reads line)
  change mask (ofLines (rows'.map (·.text))) = _
  rw [h.text, mask_of_shows (shows_ofLines hshows), mask_of_shows (shows_ofLines h.shows), hshown]

end EntityScaffold.Source
