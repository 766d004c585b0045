import EntityScaffold.Proofs.Source.ClassBody
import EntityScaffold.Proofs.Source.ClassWords
import EntityScaffold.Proofs.Source.LexedMembers
import EntityScaffold.Proofs.Source.MemberEnds
import EntityScaffold.Proofs.Source.ShiftedLexemes

/-!
# Members that stand alone

A member is freestanding if its text, read for itself, is that member and nothing is moved in
it.  Its text may hold literals, heredocs, comments, nested brackets and attributes.  Such a text is
one piece up to where the member ends, perhaps with blanks in front of it and with a comment behind
it on its last line; and so it is behind any indentation, in front of any line feed.

* `Member.Freestanding` — a member whose text is read as that member.
* `Member.Parts`, `Member.Freestanding.exists_parts` — the parts of its text.
* `Member.Placed`, `Member.Freestanding.exists_placed` — the member behind an indentation, as a
  class body holds it and as it is read there.
-/

set_option autoImplicit false

namespace EntityScaffold.Source

open Text

/-- A member whose text, read for itself, is that member: it holds code, no line of it is blank
without being empty, and no word that opens a class stands in it. -/
structure Member.Freestanding (m : Member) : Prop where
  parse : parseMember m.text = .ok m
  lines : LinesInked m.text
  code : ∀ k, mask m.text = .ok k → isBlankText k = false
  noWord : ∀ k, mask m.text = .ok k → hasClassWord none k = false

theorem Member.freestanding_iff {m : Member} : m.Freestanding ↔
    parseMember m.text = .ok m ∧ LinesInked m.text ∧
      (mask m.text).toOption.all (fun k => !isBlankText k && !hasClassWord none k) = true := by
  constructor
  · intro h
    refine ⟨h.parse, h.lines, ?_⟩
    cases hk : mask m.text with
    | error e => rfl
    | ok k => simp [Except.toOption, h.code k hk, h.noWord k hk]
  · rintro ⟨hparse, hlines, hall⟩
    have hmask : ∀ k, mask m.text = .ok k →
        isBlankText k = false ∧ hasClassWord none k = false := by
      intro k hk
      simpa [hk, Except.toOption] using hall
    exact ⟨hparse, hlines, fun k hk => (hmask k hk).1, fun k hk => (hmask k hk).2⟩

instance (m : Member) : Decidable m.Freestanding := decidable_of_iff _ Member.freestanding_iff.symm

/-! ## Where a member is found -/

/-- The number of a member's line stands in errors only. -/
theorem Member.ofText_line {raw : Text} {line : Nat} {m : Member}
    (h : Member.ofText raw line = .ok m) (line' : Nat) : Member.ofText raw line' = .ok m := by
  rw [Member.ofText] at h ⊢
  cases hm : mask raw with
  | error e =>
    rw [hm] at h
    cases h
  | ok k =>
    rw [hm] at h
    simp only at h ⊢
    cases hname : methodName? (withoutAttributes k).1 with
    | some name =>
      rw [hname] at h
      simp only at h ⊢
      cases hext : extent? k with
      | none =>
        rw [hext] at h
        cases h
      | some e =>
        rw [hext] at h
        obtain ⟨size, block⟩ := e
        cases block <;> exact h
    | none =>
      rw [hname] at h
      simp only at h ⊢
      cases hproperty : propertyName? (withoutAttributes k).1 with
      | some name =>
        rw [hproperty] at h
        exact h
      | none =>
        rw [hproperty] at h
        simp only at h ⊢
        split at h
        · rename_i hverbatim
          rw [if_pos hverbatim]
          exact h
        · cases h

/-- Where a member is found, the cutting succeeds if it does behind that member. -/
theorem itemsFrom_of_member {gap member rest : List Cell} (hgap : ∀ cell ∈ gap, isGap cell.1 = true)
    {cell : Cell} {more : List Cell} (hcells : member = cell :: more) (hcell : isGap cell.1 = false)
    {before : Text} {m : Member} (hmember : memberCells? (member ++ rest) = some member)
    (hm : ∀ line,
      Member.ofText (memberText (lastLine (before ++ rawText gap)) (rawText member)) line = .ok m)
    {fuel : Nat} {ms : List Member}
    (hrest : ∀ line before, ∃ items, itemsFrom fuel line before true rest = .ok items ∧
      membersOf items = ms) (line : Nat) (inside : Bool) :
    ∃ items, itemsFrom (fuel + 1) line before inside (gap ++ (member ++ rest)) = .ok items ∧
      membersOf items = m :: ms := by
  have hcons : member ++ rest = cell :: (more ++ rest) := by rw [hcells, List.cons_append]
  obtain ⟨items, hitems, rfl⟩ := hrest
    (line + countChar '\n' (rawText gap) + countChar '\n' (rawText member))
    (lastLine (lastLine (before ++ rawText gap) ++ rawText member))
  refine ⟨_, ?_, membersOf_step (inside && 2 ≤ countChar '\n' (rawText gap)) m items⟩
  rw [itemsFrom_skip hgap hcons hcell, hmember]
  simp only [hm, List.drop_left, hitems, Except.bind, Except.map]

/-! ## The parts of a member's text -/

theorem length_memberText_le (before raw : Text) :
    (memberText before raw).length ≤ before.length + raw.length := by
  have hbefore : (if isBlankText before then before else []).length ≤ before.length := by
    split <;> simp
  have hstrip := (length_dropEndWhile_le isBlank _).trans ((length_trimWhile_le (· == '\n') _).trans
    (length_dedent_le ((if isBlankText before then before else []) ++ raw)))
  rw [List.length_append] at hstrip
  exact hstrip.trans (Nat.add_le_add_right hbefore _)

/-- What stands on the last line of a text is its end, and holds no line feed. -/
theorem lastLine_spec (t : Text) : lastLine t <:+ t ∧ '\n' ∉ lastLine t := by
  refine ⟨List.rtakeWhile_suffix _ t, fun h => ?_⟩
  have := List.mem_rtakeWhile_imp (p := (· != '\n')) h
  simp at this

/-- The parts of a member's text, read for itself: blanks, the piece up to where the member ends,
and a comment behind it on the same line. -/
structure Member.Parts (m : Member) where
  before : Text
  piece : Text
  comment : Text
  /-- The lexemes of the piece. -/
  pieceLexemes : List Lexeme
  /-- The lexemes of the comment. -/
  commentLexemes : List Lexeme
  text : m.text = before ++ (piece ++ comment)
  gap : ∀ c ∈ before, isGap c = true
  line : '\n' ∉ before
  first : ∃ c t, piece = c :: t ∧ isGap c = false
  pieceReads : Reads piece pieceLexemes []
  ends : EndsMember [] false (pieceLexemes.flatMap Lexeme.shown)
  commentReads : Reads comment commentLexemes []
  hidden : isBlankText (commentLexemes.flatMap Lexeme.shown) = true
  oneLine : '\n' ∉ comment
  ink : comment = [] ∨ isBlankText comment = false
  mask : mask m.text =
    .ok (before ++ (pieceLexemes.flatMap Lexeme.shown ++ commentLexemes.flatMap Lexeme.shown))
  moved : memberText before (piece ++ comment) = m.text
  reads : ∀ line, Member.ofText m.text line = .ok m

theorem exists_of_parseMember {t : Text} {m : Member} (h : parseMember t = .ok m) :
    ∃ k items, mask t = .ok k ∧
      itemsFrom ((t.zip k).length + 1) 1 [] false (t.zip k) = .ok items ∧
      membersOf items = [m] := by
  rw [parseMember, parseMembers] at h
  cases hk : mask t with
  | error e =>
    rw [hk] at h
    cases h
  | ok k =>
    rw [hk] at h
    simp only [itemsOf] at h
    cases hitems : itemsFrom ((t.zip k).length + 1) 1 [] false (t.zip k) with
    | error e =>
      rw [hitems] at h
      cases h
    | ok items =>
      refine ⟨k, items, rfl, hitems, ?_⟩
      rw [hitems] at h
      simp only [Except.map] at h
      split at h
      · cases h
      · rename_i hone
        cases h
        exact Except.ok.inj hone
      · cases h

/-- Behind blanks a text is masked as it would be for itself. -/
theorem exists_masked_behind {gap rest k : Text} (hgap : ∀ c ∈ gap, isBlank c = true)
    (hmask : mask (gap ++ rest) = .ok k) :
    ∃ ls, Reads rest ls [] ∧ k = gap ++ ls.flatMap Lexeme.shown := by
  cases hls : lexemes (gap ++ rest) with
  | error e =>
    rw [mask, hls] at hmask
    cases hmask
  | ok ls =>
    obtain ⟨ms, rfl, hms⟩ := (reads_blanks hgap rest).rest_of_append (lexemes_eq_ok_iff.mp hls)
    refine ⟨ms, hms, ?_⟩
    rw [mask, hls] at hmask
    have hlexed : ((gap.map fun c => Lexeme.code [c]) ++ ms).flatMap Lexeme.shown = k :=
      Except.ok.inj hmask
    rw [← hlexed, List.flatMap_append, List.flatMap_map]
    simp [Lexeme.shown]

/-- Read for itself, the text is one member behind blanks on its line, and nothing is left of it. -/
theorem exists_single {m : Member} (h : parseMember m.text = .ok m) :
    ∃ (gap cells : List Cell) (k : Text), mask m.text = .ok k ∧ m.text.zip k = gap ++ cells ∧
      (∀ cell ∈ gap, isGap cell.1 = true) ∧ '\n' ∉ rawText gap ∧
      (∃ cell more, cells = cell :: more ∧ isGap cell.1 = false) ∧
      memberCells? cells = some cells ∧ memberText (rawText gap) (rawText cells) = m.text ∧
      ∀ line, Member.ofText m.text line = .ok m := by
  obtain ⟨k, items, hmask, hitems, hone⟩ := exists_of_parseMember h
  obtain ⟨gap, rest, hcells, hgap, hhead⟩ := exists_takeWhile (fun cell : Cell => isGap cell.1)
    (m.text.zip k)
  have hraw : rawText gap ++ rawText rest = m.text := by
    rw [← rawText_append, ← hcells, rawText_zip (length_mask hmask)]
  rw [hcells] at hitems
  cases hrest : rest with
  | nil =>
    -- a text of gaps only has no members
    rw [hrest, List.append_nil, itemsFrom_gap hgap] at hitems
    cases hitems
    cases hone
  | cons cell more =>
    have hcell : isGap cell.1 = false := hhead cell (by simp [hrest])
    obtain ⟨member, m', _, _, more', hmember, hm', -, hmembers⟩ :=
      exists_of_itemsFrom hgap hrest hcell hitems
    obtain rfl : m' = m := by
      rw [hmembers] at hone
      exact (List.cons.inj hone).1
    rw [List.nil_append] at hm'
    have htext := Member.text_of_ofText hm'
    -- the text is not longer than what it was made of, so nothing is left out
    obtain ⟨behind, hbehind⟩ : ∃ behind, rest = member ++ behind := ⟨_, eq_of_memberCells? hmember⟩
    obtain ⟨hsuffix, hline⟩ := lastLine_spec (rawText gap)
    have hsize := length_memberText_le (lastLine (rawText gap)) (rawText member)
    rw [← htext, ← hraw, hbehind, rawText_append, List.length_append, List.length_append] at hsize
    have hle := hsuffix.length_le
    obtain rfl : behind = [] := by
      have : (rawText behind).length = 0 := by omega
      simpa [rawText] using this
    obtain rfl : rest = member := by rw [hbehind, List.append_nil]
    have hlast : lastLine (rawText gap) = rawText gap := hsuffix.eq_of_length (by omega)
    rw [hlast] at hline htext hm'
    rw [← htext] at hm'
    exact ⟨gap, rest, k, hmask, hcells, hgap, hline, ⟨cell, more, hrest, hcell⟩, hmember,
      htext.symm, Member.ofText_line hm'⟩

/-- Both the text and what the mask shows of it begin with those blanks. -/
theorem exists_alone {m : Member} (h : parseMember m.text = .ok m) :
    ∃ (before : Text) (cells : List Cell) (ls : List Lexeme), m.text = before ++ rawText cells ∧
      (∀ c ∈ before, isGap c = true) ∧ '\n' ∉ before ∧
      (∃ cell more, cells = cell :: more ∧ isGap cell.1 = false) ∧
      memberCells? cells = some cells ∧ Reads (rawText cells) ls [] ∧
      shownText cells = ls.flatMap Lexeme.shown ∧ mask m.text = .ok (before ++ shownText cells) ∧
      memberText before (rawText cells) = m.text ∧ ∀ line, Member.ofText m.text line = .ok m := by
  obtain ⟨gap, cells, k, hmask, hcells, hgap, hline, hfirst, hmember, hmoved, hreads⟩ :=
    exists_single h
  have hlen := length_mask hmask
  have hraw : rawText gap ++ rawText cells = m.text := by
    rw [← rawText_append, ← hcells, rawText_zip hlen]
  have hshown : shownText gap ++ shownText cells = k := by
    rw [← shownText_append, ← hcells, shownText_zip hlen]
  obtain ⟨ls, hls, hk⟩ := exists_masked_behind (isBlank_of_mem_gap hgap) (hraw.symm ▸ hmask)
  obtain ⟨hfront, hbehind⟩ := List.append_inj (hshown.trans hk) (length_shownText gap)
  refine ⟨rawText gap, cells, ls, hraw.symm, fun c hc => ?_, hline, hfirst, hmember, hls, hbehind,
    ?_, hmoved, hreads⟩
  · obtain ⟨d, hd, rfl⟩ := List.mem_map.mp hc
    exact hgap d hd
  · rw [← hfront, hshown, hmask]

/-- **The text of a freestanding member has these parts.** -/
theorem Member.Freestanding.exists_parts {m : Member} (h : m.Freestanding) : Nonempty m.Parts := by
  obtain ⟨before, cells, ls, htext, hgap, hfeed, ⟨cell, more, hcells, hcell⟩, hmember, hraw, hshown,
    hmask, hmoved, hreads⟩ := exists_alone h.parse
  have hblank : ∀ c ∈ before, isBlank c = true := fun c hc => isBlank_of_isGap (hgap c hc)
  have hcode : isBlankText (shownText cells) = false := by
    have := h.code _ hmask
    rw [isBlankText, List.all_append, List.all_eq_true.mpr hblank, Bool.true_and] at this
    exact this
  have hall : memberCells? (cells ++ []) = some cells := by rwa [List.append_nil]
  rw [← List.append_nil cells] at hraw hshown
  rcases exists_cutOff hall hraw hshown with ⟨front, line, ks, ms, rfl, -, c⟩ | ⟨hblanks, -⟩
  · obtain ⟨hks, hfront, hends, hms, hline, hone, -, hhidden, hink⟩ := c
    rw [List.append_nil] at hms hline
    rw [rawText_append] at htext hmoved
    rw [shownText_append, hfront, hline] at hmask
    have hpiece := hks []
    rw [List.append_nil] at hpiece
    refine ⟨⟨before, rawText front, rawText line, ks, ms, htext, hgap, hfeed, ?_, hpiece, hends,
      hms, hline ▸ hhidden, hone, hink.imp (fun h => by rw [h]; rfl) id, hmask, hmoved, hreads⟩⟩
    -- the piece is not empty, so it begins where the cells do
    obtain ⟨a, d, hd, -⟩ := hends.exists_mark
    cases front with
    | nil =>
      rw [hd] at hfront
      simp [shownText] at hfront
    | cons c front =>
      obtain ⟨rfl, -⟩ := List.cons.inj hcells
      exact ⟨c.1, rawText front, rfl, hcell⟩
  · rw [List.append_nil, hcode] at hblanks
    cases hblanks

/-! ## Behind an indentation -/

/-- What a comment shows holds no arrows of code. -/
theorem notMem_arrows_of_blank {ls : List Lexeme}
    (h : isBlankText (ls.flatMap Lexeme.shown) = true) : .code "<<<" ∉ ls := by
  intro hmem
  have : '<' ∈ ls.flatMap Lexeme.shown :=
    List.mem_flatMap.mpr ⟨.code "<<<", hmem, by simp [Lexeme.shown]⟩
  exact absurd (List.all_eq_true.mp h _ this) (by decide)

/-- The cells of a piece and of a comment behind it, in front of a line feed, are those of a member.
-/
theorem memberCells?_of_parts {s c m k : Text} (hm : EndsMember [] false m)
    (hs : m.length = s.length) (hc : k.length = c.length) (hline : '\n' ∉ c)
    (hk : isBlankText k = true)
    (hink : c = [] ∨ isBlankText c = false) {rest : List Cell}
    (hrest : ∀ cell ∈ rest.head?, cell.1 = '\n') :
    memberCells? ((s ++ c).zip (m ++ k) ++ rest) = some ((s ++ c).zip (m ++ k)) := by
  obtain ⟨b, hb⟩ := hm.extent? (shownText (c.zip k ++ rest))
  have hsize : (s.zip m).length = m.length := by simp [hs]
  have hbehind : (c.zip k ++ rest).takeWhile (fun cell => cell.1 != '\n') = c.zip k := by
    have hall : ∀ cell ∈ c.zip k, (cell.1 != '\n') = true := by
      intro cell hcell
      rw [bne_iff_ne]
      rintro hfeed
      exact hline (hfeed ▸ (List.of_mem_zip hcell).1)
    rw [List.takeWhile_append_of_pos hall]
    cases rest with
    | nil => simp
    | cons cell rest => simp [hrest cell (by simp)]
  rw [List.zip_append hs.symm, List.append_assoc, memberCells?, shownText_append,
    shownText_zip hs, hb]
  simp only [← hsize, List.drop_left, List.take_left, hbehind, rawText_zip hc, shownText_zip hc, hk,
    Bool.and_true, Option.some.injEq, List.append_cancel_left_eq]
  rcases hink with rfl | hink
  · simp
  · simp [hink]

/-- Behind an indentation a member is moved to the left as it is without one. -/
theorem memberText_indent {i before s w t : Text} (hi : IsIndent i)
    (hgap : ∀ c ∈ before, isGap c = true) (hw : LinesInked w)
    (hs : ofLines (indentLines i w) = i ++ before ++ s) (ht : w = before ++ t) :
    memberText (i ++ before) s = memberText before t := by
  have hblank : isBlankText before = true :=
    List.all_eq_true.mpr fun c hc => isBlank_of_isGap (hgap c hc)
  have hblank' : isBlankText (i ++ before) = true := by
    rw [isBlankText, List.all_append, Bool.and_eq_true]
    exact ⟨List.all_eq_true.mpr hi.isBlank, hblank⟩
  rw [memberText, memberText, if_pos hblank, if_pos hblank', ← hs, dedent_indentLines hi hw, ht]

namespace Member.Parts

variable {m : Member} {i : Text} (p : m.Parts)

/-- The text begins with no line feed. -/
theorem exists_head (p : m.Parts) : ∃ c t, m.text = c :: t ∧ c ≠ '\n' := by
  rw [p.text]
  cases hbefore : p.before with
  | nil =>
    obtain ⟨c, t, hc, hcell⟩ := p.first
    refine ⟨c, t ++ p.comment, by rw [hc]; rfl, ?_⟩
    rintro rfl
    cases hcell
  | cons c t =>
    refine ⟨c, _, rfl, ?_⟩
    rintro rfl
    exact p.line (by rw [hbefore]; exact List.mem_cons_self)

/-- The lines behind an indentation. -/
theorem indented (h : LinesInked m.text) :
    ofLines (indentLines i m.text) = i ++ p.before ++ (hang i false p.piece ++ p.comment) := by
  obtain ⟨a, d, hshown, hd⟩ := p.ends.exists_mark
  obtain ⟨piece, hpiece, -⟩ := p.pieceReads.front_of_mark hshown hd
  have hfeed : (d == '\n') = false := by rcases eq_of_isMark hd with rfl | rfl | rfl <;> decide
  have hcomment := hang_append_of_notMem (i := i) p.oneLine []
  rw [List.append_nil, hang_nil, List.append_nil] at hcomment
  have hbehind : hang i false (p.piece ++ p.comment) = hang i false p.piece ++ p.comment := by
    rw [hpiece, List.append_assoc, List.singleton_append, hang_append_cons, hfeed, hcomment]
  obtain ⟨c, t, htext, hc⟩ := p.exists_head
  rw [ofLines_indentLines h, htext, hang_start hc, ← htext, p.text, hang_append_of_notMem p.line,
    hbehind, List.append_assoc]

/-- The comment is read to the line feed behind it. -/
theorem shows_comment :
    Shows (p.comment ++ ['\n']) (p.commentLexemes.flatMap Lexeme.shown ++ ['\n']) := by
  have hlexed : Lexed p.comment (p.commentLexemes ++ [.code ['\n']]) :=
    lexed_of_lineFeed (s := []) (by simpa using p.commentReads) (by simp)
      (notMem_arrows_of_blank p.hidden)
  have := shows_of_reads (t := p.comment ++ ['\n']) fun u => by simpa using hlexed u
  simpa [Lexeme.shown] using this

/-- Of the comment only blanks are shown. -/
theorem notMem_shown_comment {c : Char} (hc : isBlank c = false) :
    c ∉ p.commentLexemes.flatMap Lexeme.shown := by
  intro hmem
  rw [List.all_eq_true.mp p.hidden c hmem] at hc
  cases hc

/-- What is shown does not end in the last letter of `class`. -/
theorem getLast?_shown_ne {front t : Text} {d : Char} (ht : t = front ++ [d]) (hd : isMark d = true) :
    (t ++ p.commentLexemes.flatMap Lexeme.shown).getLast? ≠ some 's' := by
  rw [ht]
  rcases List.eq_nil_or_concat (p.commentLexemes.flatMap Lexeme.shown) with hnil | ⟨k, c, hk⟩
  · rw [hnil, List.append_nil, List.getLast?_concat]
    rcases eq_of_isMark hd with rfl | rfl | rfl <;> decide
  · rw [hk, List.concat_eq_append, ← List.append_assoc, List.getLast?_concat]
    rintro hc
    obtain rfl := Option.some.inj hc
    exact p.notMem_shown_comment (c := 's') (by decide) (by rw [hk]; simp)

/-- No class begins in what is shown behind an indentation, if none does without. -/
theorem noWord_indented {shown : Text} (hi : IsIndent i)
    (hshift : Shifted false (p.pieceLexemes.flatMap Lexeme.shown) shown) {front : Text} {d : Char}
    (hshown : shown = front ++ [d]) (hd : isMark d = true)
    (hword : hasClassWord none (p.before ++ (p.pieceLexemes.flatMap Lexeme.shown ++
      p.commentLexemes.flatMap Lexeme.shown)) = false) :
    hasClassWord none (i ++ p.before ++ (shown ++ p.commentLexemes.flatMap Lexeme.shown ++ ['\n'])) =
      false := by
  have hshifted : Shifted true (p.before ++ (p.pieceLexemes.flatMap Lexeme.shown ++
      p.commentLexemes.flatMap Lexeme.shown)) (i ++ (p.before ++ (shown ++
        p.commentLexemes.flatMap Lexeme.shown))) :=
    .lead (x := []) (by simp) hi ((Shifted.refl false _).append (hshift.append (.refl false _)))
  have hlast : (i ++ (p.before ++ (shown ++ p.commentLexemes.flatMap Lexeme.shown))).getLast? ≠
      some 's' := by
    rw [getLast?_append_of_ne_nil _ (by simp [hshown]),
      getLast?_append_of_ne_nil _ (by simp [hshown])]
    exact p.getLast?_shown_ne hshown hd
  have := hasClassWord_lineFeed (hasClassWord_shifted hshifted (fun _ => rfl) hword) hlast
  simpa only [List.append_assoc] using this

end Member.Parts

/-- A member behind an indentation, as a class body holds it and as it is read there. -/
structure Member.Placed (i : Text) (m : Member) where
  /-- The indentation and the blanks behind it. -/
  front : Text
  text : Text
  /-- What the mask shows of the text. -/
  shown : Text
  render : ofLines (m.render i) = front ++ text
  gap : ∀ c ∈ front, isGap c = true
  line : '\n' ∉ front
  first : ∃ c t, text = c :: t ∧ isGap c = false
  length : shown.length = text.length
  shows : Shows (text ++ ['\n']) (shown ++ ['\n'])
  cells : ∀ rest : List Cell, (∀ cell ∈ rest.head?, cell.1 = '\n') →
    memberCells? (text.zip shown ++ rest) = some (text.zip shown)
  reads : ∀ line, Member.ofText (memberText front text) line = .ok m
  closing : ∀ u, closingBrace? 1 (shown ++ u) = (closingBrace? 1 u).map (shown.length + ·)
  noWord : ∀ prev, prev.any isWord = false → hasClassWord prev (front ++ (shown ++ ['\n'])) = false

/-- **A freestanding member behind an indentation** is found there and read as that member. -/
theorem Member.Freestanding.exists_placed {m : Member} (h : m.Freestanding) {i : Text}
    (hi : IsIndent i) : Nonempty (m.Placed i) := by
  obtain ⟨p⟩ := h.exists_parts
  obtain ⟨ks, hks, hshift⟩ := p.pieceReads.shifted (shifted_hang hi false p.piece)
  have hends := p.ends.shifted hshift
  obtain ⟨a, d, hshown, hd⟩ := hends.exists_mark
  obtain ⟨-, -, hread⟩ := hks.front_of_mark hshown hd
  have hrender := p.indented (i := i) h.lines
  refine ⟨{
    front := i ++ p.before
    text := hang i false p.piece ++ p.comment
    shown := ks.flatMap Lexeme.shown ++ p.commentLexemes.flatMap Lexeme.shown
    render := hrender
    gap := fun c hc => (List.mem_append.mp hc).elim (isGap_of_indent hi c) (p.gap c)
    line := ?line
    first := ?first
    length := by
      rw [List.length_append, List.length_append, hks.length_shown, p.commentReads.length_shown]
    shows := ?shows
    cells := fun rest hrest =>
      memberCells?_of_parts hends hks.length_shown p.commentReads.length_shown p.oneLine p.hidden
        p.ink hrest
    reads := fun line => ?reads
    closing := fun u => ?closing
    noWord := fun prev hprev => ?noWord }⟩
  case line =>
    rw [List.mem_append, not_or]
    exact ⟨hi.notMem (by decide), p.line⟩
  case first =>
    obtain ⟨c, t, hc, hcell⟩ := p.first
    rw [hc]
    exact ⟨c, _, rfl, hcell⟩
  case shows =>
    have := (shows_of_reads hread).append p.shows_comment
    simpa only [List.append_assoc] using this
  case reads =>
    rw [memberText_indent hi p.gap h.lines hrender p.text, p.moved]
    exact p.reads line
  case closing =>
    rw [List.append_assoc, hends.closingBrace?,
      closingBrace?_append (p.notMem_shown_comment (by decide)) (p.notMem_shown_comment (by decide)),
      Option.map_map]
    congr 1
    funext n
    simp only [Function.comp_apply, List.length_append]
    omega
  case noWord =>
    have hnone : prev.any isWord = (none : Option Char).any isWord := hprev
    rw [hasClassWord_congr hnone]
    exact p.noWord_indented hi hshift hshown hd (h.noWord _ p.mask)

end EntityScaffold.Source
