import EntityScaffold.Proofs.Source.LexedLines
import EntityScaffold.Proofs.Source.Marks
import EntityScaffold.Proofs.Source.MemberEnds
import EntityScaffold.Proofs.Source.ReadBack

/-!
# The lexemes of the members of a class

A class body is cut behind the marks that end its members, and where a line ends behind a comment.
Neither cut goes through a lexeme, or else the member cannot be read.

* `Reads.line` — the rest of a line of which the mask shows nothing holds whole comments, or one
  that goes on behind the line.
* `CutOff`, `exists_cutOff` — how the first member of a class body is cut off: the piece up to where
  it ends, and a comment behind it on its line.
* `lexed_of_memberCells?` — the lexemes of the first member and of what follows.
* `Cuts.lexed` — by induction on the members, their lexemes are those of the body but for blanks.
-/

set_option autoImplicit false

namespace EntityScaffold.Source

open Text

/-! ## The rest of a line -/

/-- The first line of a comment that goes on behind it. -/
theorem openComment_line {b body inner z rest : Text}
    (htext : (Lexeme.block body).text = b ++ '\n' :: z)
    (hcut : cutAt? "*/" inner = some (body, rest)) :
    '\n' ∈ body ∧ OpenComment (b ++ ['\n']) := by
  have hmark : ∀ {p x y : Text}, '\n' ∉ p → p ≠ x ++ '\n' :: y := by
    rintro p x y hp rfl
    exact hp (by simp)
  have htext : "/*" ++ (body ++ "*/") = b ++ '\n' :: z := by simpa [Lexeme.text] using htext
  obtain ⟨part, rfl, hpart⟩ : ∃ part, b = "/*" ++ part ∧ body ++ "*/" = part ++ '\n' :: z := by
    rcases List.append_eq_append_iff.mp htext with ⟨part, hb, hpart⟩ | ⟨x, hx, hz⟩
    · exact ⟨part, hb, hpart⟩
    · cases x with
      | nil => exact ⟨[], by simpa using hx.symm, by simpa using hz.symm⟩
      | cons c x =>
        obtain ⟨rfl, -⟩ := List.cons.inj hz
        exact absurd hx (hmark (by decide))
  obtain ⟨z', rfl⟩ : ∃ z', body = part ++ '\n' :: z' := by
    rcases List.append_eq_append_iff.mp hpart with ⟨x, -, hx⟩ | ⟨x, hx, hz⟩
    · exact absurd hx (hmark (by decide))
    · cases x with
      | nil => simp at hz
      | cons c x =>
        obtain ⟨rfl, -⟩ := List.cons.inj hz
        exact ⟨x, hx⟩
  refine ⟨by simp, part ++ ['\n'], rfl, ?_⟩
  rw [Option.eq_none_iff_forall_ne_some]
  rintro ⟨x, y⟩ hsome
  -- a comment that ends within the line would end there in the whole text
  have heq := eq_of_cutAt? hsome
  have hwhole : inner = x ++ "*/" ++ (y ++ z' ++ "*/" ++ rest) := by
    rw [eq_of_cutAt? hcut]
    simpa using congrArg (· ++ (z' ++ "*/" ++ rest)) heq
  have := cutAt?_front (by simp) hsome (y ++ z' ++ "*/" ++ rest)
  rw [← hwhole, hcut] at this
  obtain ⟨rfl, -⟩ := Prod.mk.inj (Option.some.inj this)
  have := congrArg List.length heq
  simp at this

/-- A lexeme that begins in a line of which the mask shows nothing is a comment. -/
theorem First.openComment {t b z rest : Text} {l : Lexeme} (h : First t l rest) (hne : b ≠ [])
    (htext : l.text = b ++ '\n' :: z) (hshown : ∀ c ∈ l.shown.head?, isBlank c = true) :
    ∃ body, l = .block body ∧ '\n' ∈ body ∧ OpenComment (b ++ ['\n']) := by
  cases h with
  | @literal q _ _ _ hq =>
    have := hshown q rfl
    rcases hq with rfl | rfl <;> cases this
  | block h => exact ⟨_, rfl, openComment_line htext h⟩
  | remark _ hline =>
    rw [Lexeme.text] at htext
    exact absurd (by simp [htext]) hline
  | heredoc => cases hshown '<' rfl
  | arrows => cases hshown '<' rfl
  | code =>
    obtain ⟨c, b, rfl⟩ := List.exists_cons_of_ne_nil hne
    simp [Lexeme.text] at htext

/-- **The rest of a line of which the mask shows nothing** ends with the line, unless a comment that
begins in it goes on behind it. -/
theorem Reads.line {b w : Text} {ms : List Lexeme} (h : Reads (b ++ w) ms []) (hb : '\n' ∉ b)
    (hw : ∀ c ∈ w.head?, c = '\n')
    (hshown : ∀ c ∈ (ms.flatMap Lexeme.shown).take b.length, isBlank c = true) :
    (∃ ks ls, ms = ks ++ ls ∧ Reads (b ++ w) ks w ∧ Reads w ls []) ∨
      ∃ ks x body, (∀ k ∈ ks, k ∈ ms) ∧ Reads (b ++ w) ks (x ++ w) ∧ OpenComment (x ++ ['\n']) ∧
        .block body ∈ ms ∧ '\n' ∈ body := by
  induction ms generalizing b with
  | nil =>
    generalize hx : b ++ w = x at h
    cases h
    obtain ⟨rfl, rfl⟩ := List.append_eq_nil_iff.mp hx
    exact .inl ⟨[], [], rfl, .done [], .done []⟩
  | cons l ms ih =>
    by_cases hne : b = []
    · subst hne
      exact .inl ⟨[], l :: ms, rfl, .done w, h⟩
    cases h with
    | @next _ u _ _ _ hfirst hmore =>
      have hsize := l.length_shown
      rw [List.flatMap_cons] at hshown
      obtain ⟨b', rfl, rfl⟩ | ⟨z, htext⟩ :
          (∃ b', b = l.text ++ b' ∧ u = b' ++ w) ∨ ∃ z, l.text = b ++ '\n' :: z := by
        rcases List.append_eq_append_iff.mp hfirst.eq_append with ⟨z, htext, hz⟩ | ⟨b', hb', hu⟩
        · cases z with
          | nil => exact .inl ⟨[], by simpa using htext.symm, by simpa using hz.symm⟩
          | cons c z =>
            obtain rfl : c = '\n' := hw c (by simp [hz])
            exact .inr ⟨z, htext⟩
        · exact .inl ⟨b', hb', hu⟩
      · -- the lexeme ends within the line, or with it
        have hshown' : ∀ c ∈ (ms.flatMap Lexeme.shown).take b'.length, isBlank c = true := by
          intro c hc
          refine hshown c ?_
          rw [List.length_append, ← hsize, List.take_length_add_append]
          exact List.mem_append_right _ hc
        rcases ih hmore (fun hmem => hb (List.mem_append_right _ hmem)) hshown' with
          ⟨ks, ls, rfl, hks, hls⟩ | ⟨ks, x, body, hmem, hks, hx, hbody, hfeed⟩
        · exact .inl ⟨l :: ks, ls, rfl, .next hfirst hks, hls⟩
        · refine .inr ⟨l :: ks, x, body, ?_, .next hfirst hks, hx, List.mem_cons_of_mem l hbody,
            hfeed⟩
          simpa using fun k hk => .inr (hmem k hk)
      · -- it goes on behind the line
        have hhead : ∀ c ∈ l.shown.head?, isBlank c = true := by
          intro c hc
          obtain ⟨m, hm⟩ := List.head?_eq_some_iff.mp hc
          obtain ⟨d, b', rfl⟩ := List.exists_cons_of_ne_nil hne
          exact hshown c (by simp [hm])
        obtain ⟨body, rfl, hfeed, hopen⟩ := hfirst.openComment hne htext hhead
        exact .inr ⟨[], b, body, by simp, .done _, hopen, List.mem_cons_self, hfeed⟩

/-! ## Members -/

/-- The lexemes of cells: those read off their characters, of which the cells show what the mask
does; none where only gaps are left. -/
inductive CellLexemes : List Cell → List Lexeme → Prop where
  | gaps {cells : List Cell} (h : ∀ cell ∈ cells, isGap cell.1 = true) : CellLexemes cells []
  | read {cells : List Cell} {ls : List Lexeme} (raw : Reads (rawText cells) ls [])
      (shown : shownText cells = ls.flatMap Lexeme.shown) : CellLexemes cells ls

/-- The lexemes of members, one after the other, each with a line feed behind it. -/
inductive MembersLexed : List Member → List Lexeme → Prop where
  | nil : MembersLexed [] []
  | cons {m : Member} {ms : List Member} {ks ls : List Lexeme} (first : Lexed m.text ks)
      (more : MembersLexed ms ls) : MembersLexed (m :: ms) (ks ++ ls)

theorem length_shownText (cells : List Cell) :
    (shownText cells).length = (rawText cells).length := by
  simp [shownText, rawText]

theorem isBlank_of_mem_gap {gap : List Cell} (h : ∀ cell ∈ gap, isGap cell.1 = true) :
    ∀ c ∈ rawText gap, isBlank c = true := by
  intro c hc
  obtain ⟨cell, hcell, rfl⟩ := List.mem_map.mp hc
  exact isBlank_of_isGap (h cell hcell)

/-- Behind gaps the cells have the lexemes that they have for themselves. -/
theorem reads_behind_gap {gap cells : List Cell} {ls : List Lexeme}
    (hgap : ∀ cell ∈ gap, isGap cell.1 = true) (hraw : Reads (rawText (gap ++ cells)) ls [])
    (hshown : shownText (gap ++ cells) = ls.flatMap Lexeme.shown) :
    ∃ ms, ls = (rawText gap).map (fun c => .code [c]) ++ ms ∧ Reads (rawText cells) ms [] ∧
      shownText cells = ms.flatMap Lexeme.shown := by
  rw [rawText_append] at hraw
  obtain ⟨ms, rfl, hms⟩ :=
    (reads_blanks (isBlank_of_mem_gap hgap) (rawText cells)).rest_of_append hraw
  refine ⟨ms, rfl, hms, ?_⟩
  rw [List.flatMap_append] at hshown
  refine List.append_inj_right ((List.map_append (f := Prod.snd)).symm.trans hshown) ?_
  simp [rawText, List.flatMap_map, Lexeme.shown]

/-- Gaps in front do not count. -/
theorem CellLexemes.skip {gap cells : List Cell} {ls : List Lexeme}
    (h : CellLexemes (gap ++ cells) ls) (hgap : ∀ cell ∈ gap, isGap cell.1 = true) :
    ∃ ms, CellLexemes cells ms ∧ SameLexemes ls ms := by
  cases h with
  | gaps h => exact ⟨[], .gaps fun cell hcell => h cell (List.mem_append_right _ hcell), .refl []⟩
  | read hraw hshown =>
    obtain ⟨ms, rfl, hms, hshown⟩ := reads_behind_gap hgap hraw hshown
    refine ⟨ms, .read hms hshown, ?_⟩
    exact (SameLexemes.of_blanks_left (isBlankCode_of_mem (isBlank_of_mem_gap hgap))).append
      (.refl ms)

theorem length_flatMap_shown (ls : List Lexeme) :
    (ls.flatMap Lexeme.shown).length = (ls.flatMap Lexeme.text).length := by
  simp [List.length_flatMap, Lexeme.length_shown]

theorem Reads.length_shown {t : Text} {ls : List Lexeme} (h : Reads t ls []) :
    (ls.flatMap Lexeme.shown).length = t.length := by
  rw [length_flatMap_shown, ← List.append_nil (ls.flatMap Lexeme.text), ← h.eq_append]

/-- A text that ends with a mark of code is read for itself, whatever follows it. -/
theorem Reads.front_of_mark {t a : Text} {d : Char} {ls : List Lexeme} (h : Reads t ls [])
    (hshown : ls.flatMap Lexeme.shown = a ++ [d]) (hd : isMark d = true) :
    ∃ b, t = b ++ [d] ∧ ∀ v, Reads (t ++ v) ls v := by
  have hlen := h.length_shown
  rw [hshown, List.length_append, List.length_singleton] at hlen
  obtain ⟨b, e, rfl⟩ : ∃ b e, t = b ++ [e] := by
    rcases List.eq_nil_or_concat t with rfl | ⟨b, e, rfl⟩
    · simp at hlen
    · exact ⟨b, e, List.concat_eq_append⟩
  obtain ⟨ks, ms, rfl, rfl, hks, hms, -, -⟩ := h.cut hd hshown (by simpa using hlen)
  obtain rfl : ms = [] := by
    cases hms with
    | done => rfl
    | next hfirst => exact absurd rfl hfirst.ne_nil
  refine ⟨b, rfl, fun v => ?_⟩
  rw [List.append_assoc]
  exact (hks.swap_mark hd v).append (.next (first_of_isMark hd v) (.done v))

/-- Cells may be cut where a member ends. -/
theorem reads_of_extent? {cells : List Cell} {ls : List Lexeme} {e : Extent}
    (h : extent? (shownText cells) = some e) (hraw : Reads (rawText cells) ls [])
    (hshown : shownText cells = ls.flatMap Lexeme.shown) :
    ∃ front rest ks ms, cells = front ++ rest ∧ front.length = e.size ∧ ls = ks ++ ms ∧
      (∀ v, Reads (rawText front ++ v) ks v) ∧ Reads (rawText rest) ms [] ∧
      shownText rest = ms.flatMap Lexeme.shown := by
  obtain ⟨a, d, b, hm, hsize, hd⟩ := mark_of_extent? h
  obtain ⟨front, behind, rfl, rfl, hbehind⟩ := List.map_eq_append_iff.mp hm
  obtain ⟨cell, rest, rfl, rfl, rfl⟩ := List.map_eq_cons_iff.mp hbehind
  rw [hshown] at hm
  rw [rawText_append] at hraw
  obtain ⟨ks, ms, rfl, hcell, hks, hms, -, hrest⟩ := hraw.cut hd hm (length_shownText front)
  refine ⟨front ++ [cell], rest, ks ++ [.code [cell.2]], ms, by simp, by simp [hsize],
    by simp, fun v => ?_, hms, hrest.symm⟩
  have := (hks.swap_mark hd v).append (.next (first_of_isMark hd v) (.done v))
  rw [rawText_append, List.append_assoc]
  simpa [rawText, hcell] using this

/-- How the first member is cut off the cells: the piece `front` up to where it ends, with the
lexemes `ks`, and a comment behind it on its line.  The lexemes `ms` stand behind the piece. -/
structure CutOff (front line rest : List Cell) (ks ms : List Lexeme) : Prop where
  reads : ∀ v, Reads (rawText front ++ v) ks v
  shown : shownText front = ks.flatMap Lexeme.shown
  ends : EndsMember [] false (ks.flatMap Lexeme.shown)
  readsBehind : Reads (rawText (line ++ rest)) ms []
  shownBehind : shownText (line ++ rest) = ms.flatMap Lexeme.shown
  oneLine : '\n' ∉ rawText line
  next : line = [] ∨ ∀ c ∈ (rawText rest).head?, c = '\n'
  hidden : isBlankText (shownText line) = true
  ink : line = [] ∨ isBlankText (rawText line) = false

/-- **How the first member is cut off**; where nothing but comments is left, they are all of it. -/
theorem exists_cutOff {member rest : List Cell} {ls : List Lexeme}
    (h : memberCells? (member ++ rest) = some member)
    (hraw : Reads (rawText (member ++ rest)) ls [])
    (hshown : shownText (member ++ rest) = ls.flatMap Lexeme.shown) :
    (∃ front line ks ms, member = front ++ line ∧ ls = ks ++ ms ∧ CutOff front line rest ks ms) ∨
      isBlankText (shownText (member ++ rest)) = true ∧ ∀ cell ∈ rest, isGap cell.1 = true := by
  rw [memberCells?] at h
  split at h
  · rename_i e he
    refine .inl ?_
    obtain ⟨front, behind, ks, ms, hcells, hsize, rfl, hks, hms, hbehind⟩ :=
      reads_of_extent? he hraw hshown
    rw [hcells] at he hshown h
    rw [shownText_append, hbehind, List.flatMap_append] at hshown
    have hfront := List.append_cancel_right hshown
    have hends : EndsMember [] false (ks.flatMap Lexeme.shown) := by
      rw [shownText_append, hfront] at he
      exact endsMember_of_extent? he (by rw [← hfront, ← hsize]; simp [shownText])
    rw [← hsize, List.take_left, List.drop_left, Option.some.injEq] at h
    split at h
    · rename_i hcomment
      subst h
      rw [Bool.and_eq_true, Bool.not_eq_true'] at hcomment
      obtain ⟨line, tail, rfl, htake, hline, htail⟩ :
          ∃ line tail, behind = line ++ tail ∧
            (behind.takeWhile fun cell => cell.1 != '\n') = line ∧
            (∀ cell ∈ line, cell.1 ≠ '\n') ∧ ∀ cell ∈ tail.head?, cell.1 = '\n' := by
        refine ⟨_, _, List.takeWhile_append_dropWhile.symm, rfl, fun cell hcell => ?_,
          fun cell hcell => ?_⟩
        · simpa using List.mem_takeWhile_imp hcell
        · simpa using head?_dropWhile (fun cell : Cell => cell.1 != '\n') behind cell hcell
      rw [htake] at hcells hcomment ⊢
      obtain rfl : rest = tail := by simpa using hcells
      refine ⟨front, line, ks, ms, rfl, rfl, hks, hfront, hends, hms, hbehind, fun hmem => ?_,
        .inr ?_, hcomment.2, .inr hcomment.1⟩
      · obtain ⟨cell, hcell, hfeed⟩ := List.mem_map.mp hmem
        exact hline cell hcell hfeed
      · simpa [rawText] using htail
    · -- no comment is taken along
      rw [List.append_nil] at h
      subst h
      obtain rfl := List.append_cancel_left hcells
      exact ⟨front, [], ks, ms, by simp, rfl, hks, hfront, hends, hms, hbehind, by simp [rawText],
        .inl rfl, rfl, .inl rfl⟩
  · split at h
    · rename_i hblank
      rw [Option.some.injEq] at h
      refine .inr ⟨hblank, ?_⟩
      have hsplit := List.rdropWhile_append_rtakeWhile (p := fun cell : Cell => isGap cell.1)
        (l := member ++ rest)
      rw [List.rdropWhile, h] at hsplit
      have hrest := List.append_cancel_left hsplit
      rw [← hrest]
      intro cell hcell
      exact List.mem_rtakeWhile_imp (p := fun cell : Cell => isGap cell.1) hcell
    · cases h

/-- A line feed between lexemes does not count. -/
theorem SameLexemes.lineFeed (ks ms : List Lexeme) :
    SameLexemes (ks ++ ms) (ks ++ [.code ['\n']] ++ ms) := by
  have hblank : SameLexemes [] [.code ['\n']] := .of_blanks (by simp) (by decide)
  have := ((SameLexemes.refl ks).append hblank).append (.refl ms)
  rwa [List.append_nil] at this

namespace CutOff

variable {front line rest : List Cell} {ks ms : List Lexeme}

/-- How what stands on the line behind the piece is read: to the end of the line, or up to a comment
that goes on behind it. -/
theorem exists_reads (c : CutOff front line rest ks ms)
    (hrest : ∀ c ∈ (rawText rest).head?, c = '\n') :
    (∃ ks' ms', ms = ks' ++ ms' ∧ Reads (rawText line ++ rawText rest) ks' (rawText rest) ∧
        Reads (rawText rest) ms' [] ∧ shownText rest = ms'.flatMap Lexeme.shown) ∨
      ∃ ks' x body, (∀ k ∈ ks', k ∈ ms) ∧ rawText line = ks'.flatMap Lexeme.text ++ x ∧
        Reads (rawText line ++ rawText rest) ks' (x ++ rawText rest) ∧ OpenComment (x ++ ['\n']) ∧
        .block body ∈ ms ∧ '\n' ∈ body := by
  have hshown : shownText line ++ shownText rest = ms.flatMap Lexeme.shown :=
    (shownText_append line rest).symm.trans c.shownBehind
  have hblanks : ∀ d ∈ (ms.flatMap Lexeme.shown).take (rawText line).length, isBlank d = true := by
    rw [← hshown, ← length_shownText, List.take_left]
    exact List.all_eq_true.mp c.hidden
  have hread := c.readsBehind
  rw [rawText_append] at hread
  rcases hread.line c.oneLine hrest hblanks with
    ⟨ks', ms', rfl, hks, hms⟩ | ⟨ks', x, body, hmem, hks, hx⟩
  · -- what the mask shows is cut where the line ends
    rw [List.flatMap_append] at hshown
    refine .inl ⟨ks', ms', rfl, hks, hms, List.append_inj_right hshown ?_⟩
    rw [length_shownText, length_flatMap_shown, List.append_cancel_right hks.eq_append]
  · refine .inr ⟨ks', x, body, hmem, ?_, hks, hx⟩
    have htext := hks.eq_append
    rw [← List.append_assoc] at htext
    exact List.append_cancel_right htext

/-- The lexemes of a member with the comments behind it on its line. -/
theorem lexed (c : CutOff front line rest ks ms) (harrows : .code "<<<" ∉ ks ++ ms) :
    (∃ ks' ms', Lexed (rawText (front ++ line)) ks' ∧ CellLexemes rest ms' ∧
      SameLexemes (ks ++ ms) (ks' ++ ms')) ∨ Stuck (rawText (front ++ line)) := by
  rcases c.next with rfl | hrest
  · -- no comment is taken along
    refine .inl ⟨ks ++ [.code ['\n']], ms, ?_, .read c.readsBehind c.shownBehind, .lineFeed ks ms⟩
    rw [List.append_nil]
    exact lexed_of_lineFeed (c.reads []) (by simp) fun hmem =>
      harrows (List.mem_append_left _ hmem)
  rw [rawText_append]
  rcases c.exists_reads hrest with
    ⟨ks', ms', rfl, hks, hms, hshown⟩ | ⟨ks', x, -, hmem, hline, hks, hx, -, -⟩
  · refine .inl ⟨ks ++ ks' ++ [.code ['\n']], ms', ?_, .read hms hshown, ?_⟩
    · refine lexed_of_lineFeed (s := rawText rest) ?_ hrest fun hmem => harrows ?_
      · simpa only [List.append_assoc] using (c.reads _).append hks
      · rw [← List.append_assoc]
        exact List.mem_append_left _ hmem
    · rw [← List.append_assoc]
      exact .lineFeed _ _
  · have hread := (c.reads (rawText line ++ rawText rest)).append hks
    have harrows' : .code "<<<" ∉ ks ++ ks' := fun hmem' => harrows <| by
      rcases List.mem_append.mp hmem' with hmem' | hmem'
      · exact List.mem_append_left _ hmem'
      · exact List.mem_append_right _ (hmem _ hmem')
    refine .inr ⟨ks ++ ks', x ++ ['\n'], ?_, harrows', hx⟩
    have hfront : rawText front = ks.flatMap Lexeme.text := by
      have := (c.reads []).eq_append
      simpa using this
    have hreads : Reads ((ks ++ ks').flatMap Lexeme.text ++ (x ++ rawText rest)) (ks ++ ks')
        (x ++ rawText rest) := by simpa [hfront, hline] using hread
    have := hreads.swap (swappable_lineFeed hrest []) fun hmem => absurd hmem harrows'
    simpa [hfront, hline] using this

end CutOff

/-- The lexemes of the comments behind the last member, without the gaps behind them. -/
theorem lexed_of_comments {member gap : List Cell} {ls : List Lexeme}
    (hraw : Reads (rawText (member ++ gap)) ls []) (hgap : ∀ cell ∈ gap, isGap cell.1 = true)
    (harrows : .code "<<<" ∉ ls) : ∃ ks, Lexed (rawText member) ks ∧ SameLexemes ls ks := by
  have hrelaid := relaid_ends (a := []) (by simp) (isBlank_of_mem_gap hgap) (rawText member)
  have hfeed : .code "<<<" ∉ ls ++ [.code ['\n']] := by simpa using harrows
  rw [← List.append_nil (rawText (member ++ gap))] at hraw
  have hlexed := lexed_of_lineFeed hraw (by simp) harrows
  rw [rawText_append] at hlexed
  obtain ⟨ks, hks, hsame⟩ := hlexed.relaid hrelaid hfeed
  refine ⟨ks, hks, ?_⟩
  have := (SameLexemes.lineFeed ls []).trans (by simpa using hsame)
  simpa using this

/-- **The lexemes of the first member**, and of the cells behind it. -/
theorem lexed_of_memberCells? {member rest : List Cell} {ls : List Lexeme}
    (h : memberCells? (member ++ rest) = some member)
    (hraw : Reads (rawText (member ++ rest)) ls [])
    (hshown : shownText (member ++ rest) = ls.flatMap Lexeme.shown)
    (harrows : .code "<<<" ∉ ls) :
    (∃ ks ms, Lexed (rawText member) ks ∧ CellLexemes rest ms ∧ SameLexemes ls (ks ++ ms)) ∨
      Stuck (rawText member) := by
  rcases exists_cutOff h hraw hshown with ⟨front, line, ks, ms, rfl, rfl, c⟩ | ⟨-, hgap⟩
  · exact c.lexed harrows
  · obtain ⟨ks, hks, hsame⟩ := lexed_of_comments hraw hgap harrows
    exact .inl ⟨ks, [], hks, .gaps hgap, by simpa using hsame⟩

theorem reads_of_ofText {raw : Text} {line : Nat} {m : Member}
    (h : Member.ofText raw line = .ok m) : ∃ ls, Reads raw ls [] := by
  rw [Member.ofText, mask] at h
  cases hls : lexemes raw with
  | error e => simp [hls, Except.map] at h
  | ok ls => exact ⟨ls, lexemes_eq_ok_iff.mp hls⟩

/-- **The members of a class body have the lexemes of the body**, but for blanks. -/
theorem Cuts.lexed {cells : List Cell} {ms : List Member} {ls : List Lexeme} (h : Cuts cells ms)
    (hread : CellLexemes cells ls) (harrows : .code "<<<" ∉ ls) :
    ∃ ks, MembersLexed ms ks ∧ SameLexemes ls ks := by
  induction h generalizing ls with
  | @done gap hgap =>
    rw [← List.append_nil gap] at hread
    obtain ⟨ks, hks, hsame⟩ := hread.skip hgap
    cases hks with
    | gaps => exact ⟨[], .nil, hsame⟩
    | read hraw =>
      cases hraw with
      | done => exact ⟨[], .nil, hsame⟩
      | next hfirst => exact absurd rfl hfirst.ne_nil
  | @next gap member rest before line m ms hgap hcut hink htext _ ih =>
    obtain ⟨ls', hls, hskip⟩ := hread.skip hgap
    have harrows := hskip.arrows harrows
    cases hls with
    | gaps hgaps =>
      obtain ⟨cell, hcell, hno⟩ := hink
      rw [hgaps cell (List.mem_append_left _ hcell)] at hno
      cases hno
    | read hraw hshown =>
      rcases lexed_of_memberCells? hcut hraw hshown harrows with
        ⟨ks, more, hks, hmore, hsame⟩ | hstuck
      · have harrows := hsame.arrows harrows
        simp only [List.mem_append, not_or] at harrows
        obtain ⟨ks', hks', hmember⟩ := lexed_memberText before hks harrows.1
        obtain ⟨more', hmore', hrest⟩ := ih hmore harrows.2
        rw [← Member.text_of_ofText htext] at hks'
        exact ⟨ks' ++ more', .cons hks' hmore', hskip.trans (hsame.trans (hmember.append hrest))⟩
      · obtain ⟨ks, hks⟩ := reads_of_ofText htext
        exact absurd hks ((hstuck.memberText before).not_reads ks)

end EntityScaffold.Source
