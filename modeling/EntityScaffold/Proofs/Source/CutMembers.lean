import EntityScaffold.Proofs.Source.LexedMembers
import EntityScaffold.Proofs.Source.ShiftedLexemes
import EntityScaffold.Proofs.Source.Stripped

/-!
# What is cut off can be read

A class body is cut into members by what the mask of the whole file shows, and each member is moved
to the left and masked for itself.  Both masks agree: no member is cut through a literal, a heredoc
or a block, with one exception, a comment that begins behind a member and goes on over the end of
the line.

* `exists_memberText` — a member's text is shifted against what it was cut from, but for blanks at
  its ends.
* `CutOff.exists_mask` — one member: it has a mask in which it ends, or the comment behind it is
  cut.
* `cutsComment_of_itemsFrom` — by induction on the members, what can be wrong with a class body.
* `cutShort_of_parse` — a text of which the lexemes are read is never refused for a literal, a
  heredoc or a method that does not end.
-/

set_option autoImplicit false

namespace EntityScaffold.Source

open Text

/-! ## The text of a member -/

/-- A text and the same text moved to the left are shifted. -/
theorem shifted_dedent (t : Text) : Shifted true t (dedent t) := by
  have hmargin : ∀ c ∈ margin ((lines t).map emptied), isSpaceTab c = true :=
    fun _ hc => isSpaceTab_of_mem_margin hc
  have hnone : ∀ c ∈ ([] : Text), isSpaceTab c = true := by simp
  have hlines : ∀ l ∈ lines t, ∃ x y r, l = x ++ r ∧
      withoutMargin (margin ((lines t).map emptied)) (emptied l) = y ++ r ∧
        (∀ c ∈ x, isSpaceTab c = true) ∧ ∀ c ∈ y, isSpaceTab c = true := by
    intro l _
    rw [emptied]
    split
    · rename_i hl
      refine ⟨l, [], [], by simp, ?_, List.all_eq_true.mp hl, hnone⟩
      rw [withoutMargin]
      cases margin ((lines t).map emptied) <;> rfl
    · rw [withoutMargin]
      cases h : after? (margin ((lines t).map emptied)) l with
      | none => exact ⟨[], [], l, rfl, rfl, hnone, hnone⟩
      | some r => exact ⟨_, [], r, eq_append_of_after? h, rfl, hmargin, hnone⟩
  have := shifted_ofLines hlines
  rw [ofLines_lines] at this
  simp only [dedent, List.map_map]
  exact this

/-- A member's text is shifted against what it was cut from with blanks in front of it, but for
blanks at its ends. -/
theorem exists_memberText (before raw : Text) : ∃ b z u, (∀ c ∈ b, isBlank c = true) ∧
    (∀ c ∈ z, isBlank c = true) ∧ (∀ c ∈ u, isBlank c = true) ∧
      Shifted true (b ++ raw) (z ++ (memberText before raw ++ u)) := by
  obtain ⟨b, hb, hblank⟩ : ∃ b, b = (if isBlankText before then before else []) ∧
      ∀ c ∈ b, isBlank c = true := by
    refine ⟨_, rfl, ?_⟩
    split
    · rename_i hbefore
      exact List.all_eq_true.mp hbefore
    · simp
  -- what is taken away at either end
  obtain ⟨u, hu, hfeeds⟩ := exists_dropEndWhile (· == '\n')
    ((dedent (b ++ raw)).dropWhile (· == '\n'))
  obtain ⟨v, hv, hblanks⟩ := exists_dropEndWhile isBlank (trimWhile (· == '\n') (dedent (b ++ raw)))
  have hmoved : dedent (b ++ raw) =
      (dedent (b ++ raw)).takeWhile (· == '\n') ++ (memberText before raw ++ (v ++ u)) := by
    have htext : memberText before raw =
        dropEndWhile isBlank (trimWhile (· == '\n') (dedent (b ++ raw))) := by
      rw [hb]
      rfl
    rw [htext, ← List.append_assoc (dropEndWhile _ _), ← hv, trimWhile, ← hu,
      List.takeWhile_append_dropWhile]
  refine ⟨b, _, v ++ u, hblank, fun c hc => ?_, fun c hc => ?_, hmoved ▸ shifted_dedent (b ++ raw)⟩
  · exact isBlank_of_eq_lineFeed (List.all_eq_true.mp List.all_takeWhile c hc)
  · rcases List.mem_append.mp hc with hc | hc
    · exact hblanks c hc
    · exact isBlank_of_eq_lineFeed (hfeeds c hc)

/-! ## Masks of members -/

theorem isBlankText_shifted {start : Bool} {s t : Text} (h : Shifted start s t)
    (hs : isBlankText s = true) : isBlankText t = true := by
  induction h with
  | nil => rfl
  | char c _ ih =>
    simp only [isBlankText, List.all_cons, Bool.and_eq_true] at hs ih ⊢
    exact ⟨hs.1, ih hs.2⟩
  | lead _ hy _ ih =>
    simp only [isBlankText, List.all_append, Bool.and_eq_true] at hs ih ⊢
    exact ⟨List.all_eq_true.mpr (isBlank_of_spaceTabs hy), ih hs.2⟩

/-- Where nothing but comments is left, there are no attributes. -/
theorem withoutAttributes_of_blank {k : Text} (hk : isBlankText k = true) :
    (withoutAttributes k).1 = k := by
  fun_induction withoutAttributes k with
  | case1 => rfl
  | case2 t => simp [isBlankText, show isBlank '#' = false from by decide] at hk
  | case3 c t _ _ _ hmore ih =>
    simp only [isBlankText, List.all_cons, Bool.and_eq_true] at hk ih
    rw [hmore] at ih
    rw [← ih hk.2]

/-- Nothing is declared there, either. -/
theorem Member.ofText_of_blank {t k : Text} (hmask : mask t = .ok k) (hk : isBlankText k = true)
    (line : Nat) : Member.ofText t line = .ok (.verbatim t) := by
  have hbare := withoutAttributes_of_blank hk
  have hskip : skipBlanks k = [] := List.dropWhile_eq_nil_iff.mpr (List.all_eq_true.mp hk)
  have hmethod : methodName? k = none := by
    rw [methodName?, hskip]
    rfl
  have hproperty : propertyName? k = none := by
    rw [propertyName?, hskip]
    rfl
  simp only [Member.ofText, hmask, hbare, hmethod, hproperty, hk, Bool.or_true, if_true]

/-- A member that ends is refused for what it declares only. -/
theorem Member.defect_of_ofText {t k : Text} {line : Nat} {e : ParseError} (hmask : mask t = .ok k)
    (hext : (extent? k).isSome = true) (h : Member.ofText t line = .error e) :
    ∃ x, e.defect = .unsupportedMember x := by
  obtain ⟨⟨size, block⟩, hext⟩ := Option.isSome_iff_exists.mp hext
  rw [Member.ofText, hmask] at h
  simp only [hext] at h
  split at h
  · cases block <;> cases h
  · split at h
    · cases h
    · split at h
      · cases h
      · cases h
        exact ⟨_, rfl⟩

namespace CutOff

variable {front line rest : List Cell} {ks ms : List Lexeme}

/-- The comment behind a member ends on its line, or it goes on over the end of the line. -/
theorem exists_line (c : CutOff front line rest ks ms) :
    (∃ ks' ms', Reads (rawText line) ks' [] ∧ Reads (rawText rest) ms' [] ∧
      shownText rest = ms'.flatMap Lexeme.shown ∧ ∀ m ∈ ms', m ∈ ms) ∨
    ∃ ks' x body, Reads (rawText line) ks' x ∧ OpenComment x ∧ .block body ∈ ms ∧ '\n' ∈ body := by
  rcases c.next with rfl | hrest
  · exact .inl ⟨[], ms, .done [], c.readsBehind, c.shownBehind, fun _ hm => hm⟩
  -- what is read on the line is read where nothing follows it
  have hinert : ∀ c ∈ (rawText rest).head?, isInert c = true := by
    intro c hc
    rw [hrest c hc]
    decide
  rcases c.exists_reads hrest with
    ⟨ks', ms', rfl, hks, hms, hshown⟩ | ⟨ks', x, body, -, hline, hks, hx, hbody, hfeed⟩
  · have hline := List.append_cancel_right hks.eq_append
    rw [hline] at hks ⊢
    have hstop := Reads.stop (s := []) hks hinert
    rw [List.append_nil] at hstop
    exact .inl ⟨ks', ms', hstop, hms, hshown, fun m hm => List.mem_append_right ks' hm⟩
  · rw [hline, List.append_assoc] at hks
    rw [hline]
    exact .inr ⟨ks', x, body, hks.stop hinert, hx.of_blanks (by decide), hbody, hfeed⟩

/-- The text of a member is a piece of its own up to where it ends, and the comment behind it
without the blanks at its end. -/
theorem exists_piece (c : CutOff front line rest ks ms) (before : Text) : ∃ piece comment u ks',
    memberText before (rawText (front ++ line)) = piece ++ comment ∧ rawText line = comment ++ u ∧
      (∀ c ∈ u, isBlank c = true) ∧ (∀ v, Reads (piece ++ v) ks' v) ∧
      EndsMember [] false (ks'.flatMap Lexeme.shown) := by
  obtain ⟨b, z, u, hb, hz, hu, hshift⟩ := exists_memberText before (rawText (front ++ line))
  obtain ⟨a, d, hmark, hd⟩ := c.ends.exists_mark
  have hsolid : isBlank d = false := by rcases eq_of_isMark hd with rfl | rfl | rfl <;> decide
  have hread := c.reads []
  rw [List.append_nil] at hread
  obtain ⟨f, hfront, -⟩ := hread.front_of_mark hmark hd
  have hraw : b ++ rawText (front ++ line) = (b ++ f) ++ d :: rawText line := by
    rw [rawText_append, hfront]
    simp
  rw [hraw] at hshift
  obtain ⟨s, l, heq, hs, hline⟩ := hshift.exists_solid hsolid
  obtain rfl := hline.eq_of_notMem c.oneLine
  -- the mark stands in the member's text
  have hnotMem : ∀ {w : Text}, (∀ c ∈ w, isBlank c = true) → d ∉ w := by
    intro w hw hmem
    rw [hw d hmem] at hsolid
    cases hsolid
  obtain ⟨s, rfl, htext⟩ : ∃ s', s = z ++ s' ∧
      memberText before (rawText (front ++ line)) ++ u = s' ++ d :: rawText line := by
    rcases List.append_eq_append_iff.mp heq with ⟨s', hs', htext⟩ | ⟨w, hw, htext⟩
    · exact ⟨s', hs', htext⟩
    · cases w with
      | nil => exact ⟨[], by simpa using hw.symm, by simpa using htext.symm⟩
      | cons e w =>
        obtain ⟨rfl, -⟩ := List.cons.inj htext
        exact absurd (hw ▸ List.mem_append_right _ List.mem_cons_self) (hnotMem hz)
  obtain ⟨comment, htext, hcomment⟩ : ∃ comment,
      memberText before (rawText (front ++ line)) = s ++ [d] ++ comment ∧
        rawText line = comment ++ u := by
    rcases List.append_eq_append_iff.mp htext with ⟨w, -, hw⟩ | ⟨w, hw, hline⟩
    · exact absurd (hw ▸ List.mem_append_right _ List.mem_cons_self) (hnotMem hu)
    · cases w with
      | nil =>
        rw [List.nil_append] at hline
        exact absurd (hline ▸ List.mem_cons_self) (hnotMem hu)
      | cons e w =>
        obtain ⟨rfl, hrest⟩ := List.cons.inj hline
        exact ⟨w, by rw [hw]; simp, hrest⟩
  -- the piece is read as it was before it was moved
  have hpiece := (reads_blanks hb (rawText front)).append hread
  rw [hfront] at hpiece
  have hmoved : Shifted true (b ++ (f ++ [d])) (z ++ (s ++ [d])) := by
    simpa only [List.append_assoc] using hs.append (.refl false [d])
  obtain ⟨ns, hns, hshown⟩ := hpiece.shifted hmoved
  obtain ⟨ks', rfl, hks'⟩ := (reads_blanks hz (s ++ [d])).rest_of_append hns
  rw [List.flatMap_append, List.flatMap_append, flatMap_shown_code, flatMap_shown_code] at hshown
  have hends := (EndsMember.blanks_append_iff hz).mp
    (((EndsMember.blanks_append_iff hb).mpr c.ends).shifted hshown)
  obtain ⟨a', d', hmark', hd'⟩ := hends.exists_mark
  obtain ⟨-, -, hv⟩ := hks'.front_of_mark hmark' hd'
  exact ⟨s ++ [d], comment, u, ks', htext, hcomment, hu, hv, hends⟩

/-- **A member that is cut off has a mask in which it ends**, unless the comment behind it is cut.
-/
theorem exists_mask (c : CutOff front line rest ks ms) (before : Text) :
    (∃ k ms', mask (memberText before (rawText (front ++ line))) = .ok k ∧
      (extent? k).isSome = true ∧ Reads (rawText rest) ms' [] ∧
      shownText rest = ms'.flatMap Lexeme.shown ∧ ∀ m ∈ ms', m ∈ ms) ∨
    ∃ n body, mask (memberText before (rawText (front ++ line))) =
      .error (Defect.unterminatedComment.atLine n) ∧ .block body ∈ ms ∧ '\n' ∈ body := by
  obtain ⟨piece, comment, u, ps, htext, hline, hu, hps, hends⟩ := c.exists_piece before
  rcases c.exists_line with
    ⟨ls, ms', hls, hms, hshown, hsub⟩ | ⟨ls, x, body, hls, hx, hbody, hfeed⟩
  · refine .inl ?_
    rw [hline] at hls
    obtain ⟨ns, hns, -, -⟩ := hls.strip hu
    have hread := (hps comment).append hns
    rw [← htext] at hread
    refine ⟨(ps ++ ns).flatMap Lexeme.shown, ms', ?_, ?_, hms, hshown, hsub⟩
    · rw [mask, lexemes_eq_ok_iff.mpr hread]
      rfl
    · rw [List.flatMap_append]
      obtain ⟨block, hextent⟩ := hends.extent? (ns.flatMap Lexeme.shown)
      rw [hextent]
      rfl
  · refine .inr ?_
    -- the blanks at the end stand in the comment
    obtain ⟨y, rfl, hy⟩ : ∃ y, x = y ++ u ∧ comment = ls.flatMap Lexeme.text ++ y := by
      rcases List.append_eq_append_iff.mp (hline.symm.trans hls.eq_append) with
        ⟨w, -, hblanks⟩ | ⟨y, hy, hxu⟩
      · obtain ⟨inside, hinside, -⟩ := hx
        have hnil : stripStart x = [] := List.dropWhile_eq_nil_iff.mpr fun c hc =>
          hu c (hblanks ▸ List.mem_append_right w hc)
        rw [hnil] at hinside
        simp at hinside
      · exact ⟨y, hxu, hy⟩
    rw [hline, hy, List.append_assoc] at hls
    have hcomment := hls.stop fun c hc => isInert_of_isBlank (hu c (List.mem_of_mem_head? hc))
    have hread := (hps comment).append (hy ▸ hcomment)
    obtain ⟨n, herror⟩ := (hx.of_blanks hu).lexemesFrom_eq
      (1 + countChar '\n' ((ps ++ ls).flatMap Lexeme.text))
    refine ⟨n, body, ?_, hbody, hfeed⟩
    rw [mask, lexemes, htext, hread.lexemesFrom_eq, herror]
    rfl

end CutOff

/-- **The comments behind the last member are read for themselves**, too, and declare nothing. -/
theorem ofText_comments {member gap : List Cell} {ls : List Lexeme}
    (hraw : Reads (rawText (member ++ gap)) ls [])
    (hshown : shownText (member ++ gap) = ls.flatMap Lexeme.shown)
    (hblank : isBlankText (shownText (member ++ gap)) = true)
    (hgap : ∀ cell ∈ gap, isGap cell.1 = true) (before : Text) (line : Nat) :
    ∃ m, Member.ofText (memberText before (rawText member)) line = .ok m := by
  rw [rawText_append] at hraw
  obtain ⟨ks, hks, -, m, hm⟩ := hraw.strip (isBlank_of_mem_gap hgap)
  obtain ⟨b, z, u, hb, hz, hu, hshift⟩ := exists_memberText before (rawText member)
  obtain ⟨ms, hms, hmasks⟩ := ((reads_blanks hb (rawText member)).append hks).shifted hshift
  obtain ⟨ns, rfl, hns⟩ :=
    (reads_blanks hz (memberText before (rawText member) ++ u)).rest_of_append hms
  obtain ⟨ps, hps, -, x, hx⟩ := hns.strip hu
  -- the mask of the member is a part of a mask that shows nothing
  have hshows : isBlankText (ks.flatMap Lexeme.shown) = true := by
    rw [hshown, hm, isBlankText, List.all_append, Bool.and_eq_true] at hblank
    exact hblank.1
  have hmoved : isBlankText ((z.map fun c => Lexeme.code [c]).flatMap Lexeme.shown ++
      (ps.flatMap Lexeme.shown ++ x)) = true := by
    rw [← hx, ← List.flatMap_append]
    refine isBlankText_shifted hmasks ?_
    rw [List.flatMap_append, flatMap_shown_code, isBlankText, List.all_append, Bool.and_eq_true]
    exact ⟨List.all_eq_true.mpr hb, hshows⟩
  have hmask : isBlankText (ps.flatMap Lexeme.shown) = true := by
    simp only [isBlankText, List.all_append, Bool.and_eq_true] at hmoved
    exact hmoved.2.1
  refine ⟨_, Member.ofText_of_blank ?_ hmask line⟩
  rw [mask, lexemes_eq_ok_iff.mpr hps]
  rfl

/-! ## All members -/

/-- A literal, a comment, a heredoc or a method does not end. -/
def Defect.isCutShort : Defect → Bool
  | .unterminatedString | .unterminatedComment | .unterminatedHeredoc => true
  | .unterminatedMethod _ => true
  | _ => false

/-- Nothing is cut short but a comment that goes on over the end of a line. -/
def CutsComment (ls : List Lexeme) (d : Defect) : Prop :=
  d.isCutShort = true → d = .unterminatedComment ∧ ∃ body, .block body ∈ ls ∧ '\n' ∈ body

theorem CutsComment.mono {ls ms : List Lexeme} {d : Defect} (h : CutsComment ms d)
    (hsub : ∀ m ∈ ms, m ∈ ls) : CutsComment ls d := by
  intro hd
  obtain ⟨hcomment, body, hbody, hfeed⟩ := h hd
  exact ⟨hcomment, body, hsub _ hbody, hfeed⟩

/-- One step: either what follows the member is read in its turn, or the comment behind it is cut.
-/
theorem CutOff.cutsComment {front line rest : List Cell} {ks ms : List Lexeme}
    (c : CutOff front line rest ks ms) (before : Text) (n : Nat) :
    (∃ ms', Reads (rawText rest) ms' [] ∧ shownText rest = ms'.flatMap Lexeme.shown ∧
        (∀ m ∈ ms', m ∈ ms) ∧
        ∀ e, Member.ofText (memberText before (rawText (front ++ line))) n = .error e →
          CutsComment ms e.defect) ∨
      ∃ e, Member.ofText (memberText before (rawText (front ++ line))) n = .error e ∧
        CutsComment ms e.defect := by
  rcases c.exists_mask before with
    ⟨k, ms', hmask, hext, hms, hshown, hsub⟩ | ⟨inside, body, herror, hbody, hfeed⟩
  · refine .inl ⟨ms', hms, hshown, hsub, fun e he => ?_⟩
    obtain ⟨x, hx⟩ := Member.defect_of_ofText hmask hext he
    rw [hx]
    exact fun hcut => by cases hcut
  · refine .inr ⟨Defect.unterminatedComment.atLine inside, ?_, fun _ => ⟨rfl, body, hbody, hfeed⟩⟩
    rw [Member.ofText, herror]

/-- **What can be wrong with a class body** of which the lexemes are read, by induction on its
members. -/
theorem cutsComment_of_itemsFrom {fuel line : Nat} {before : Text} {inside : Bool}
    {cells : List Cell} {ls : List Lexeme} {e : ParseError} (hraw : Reads (rawText cells) ls [])
    (hshown : shownText cells = ls.flatMap Lexeme.shown)
    (h : itemsFrom fuel line before inside cells = .error e) : CutsComment ls e.defect := by
  induction fuel generalizing line before inside cells ls with
  | zero => cases h
  | succ fuel ih =>
    obtain ⟨gap, behind, rfl, hgap, hhead⟩ :=
      exists_takeWhile (fun cell : Cell => isGap cell.1) cells
    obtain ⟨ms, rfl, hms, hbehind⟩ := reads_behind_gap hgap hraw hshown
    suffices hcut : CutsComment ms e.defect from hcut.mono fun m hm => List.mem_append_right _ hm
    cases hcells : behind with
    | nil =>
      rw [hcells, List.append_nil, itemsFrom_gap hgap] at h
      cases h
    | cons cell more =>
      rw [itemsFrom_skip hgap hcells (hhead cell (by simp [hcells]))] at h
      split at h
      · cases h
        exact fun hcut => by cases hcut
      rename_i member hmember
      obtain ⟨rest, rfl⟩ : ∃ rest, behind = member ++ rest := ⟨_, eq_of_memberCells? hmember⟩
      rw [List.drop_left] at h
      generalize lastLine (before ++ rawText gap) = front at h
      generalize line + countChar '\n' (rawText gap) = start at h
      rcases exists_cutOff hmember hms hbehind with
        ⟨piece, comment, ks, ms, rfl, rfl, c⟩ | ⟨hblank, hrest⟩
      · suffices hcut : CutsComment ms e.defect from
          hcut.mono fun m hm => List.mem_append_right ks hm
        rcases c.cutsComment front start with ⟨ms', hms', hshows, hsub, hrefused⟩ | ⟨e', he', hcut⟩
        · cases hm : Member.ofText (memberText front (rawText (piece ++ comment))) start with
          | error e' =>
            rw [hm] at h
            cases h
            exact hrefused _ hm
          | ok m =>
            simp only [hm, Except.bind, Except.map] at h
            split at h
            · rename_i e' he'
              cases h
              exact (ih hms' hshows he').mono hsub
            · cases h
        · rw [he'] at h
          cases h
          exact hcut
      · obtain ⟨m, hm⟩ := ofText_comments hms hbehind hblank hrest front start
        simp only [hm, Except.bind, itemsFrom_gap hrest, Except.map] at h
        cases h

/-! ## The class file -/

/-- The body of a class is read for itself. -/
theorem exists_body {t : Text} {ls : List Lexeme} {header : ClassHeader} {size : Nat}
    (hls : Reads t ls []) (hheader : header ∈ classHeaders (ls.flatMap Lexeme.shown))
    (hsize : closingBrace? 1 ((ls.flatMap Lexeme.shown).drop (header.brace + 1)) = some size) :
    ∃ body ks, ((t.zip (ls.flatMap Lexeme.shown)).drop (header.brace + 1)).take size = body ∧
      Reads (rawText body) ks [] ∧ shownText body = ks.flatMap Lexeme.shown ∧ ∀ k ∈ ks, k ∈ ls := by
  -- a text of the same length has a character where its mask has a brace
  have hcharacter : ∀ {t a b : Text} {d : Char}, (a ++ d :: b).length = t.length →
      ∃ x e y, t = x ++ e :: y ∧ a.length = x.length := by
    intro t a b d hlen
    have hlt : a.length < t.length := by
      rw [← hlen]
      simp
    refine ⟨t.take a.length, t[a.length], t.drop (a.length + 1), ?_, ?_⟩
    · rw [← List.drop_eq_getElem_cons hlt, List.take_append_drop]
    · rw [List.length_take, Nat.min_eq_left hlt.le]
  have hlen := hls.length_shown
  obtain ⟨a, b, hm, hbrace⟩ := brace_of_classHeaders hheader
  rw [hm] at hlen
  obtain ⟨x, d, y, rfl, hx⟩ := hcharacter hlen
  obtain ⟨ks, ms, rfl, rfl, -, hms, rfl, hb⟩ := hls.cut (by decide) hm hx
  have hdrop : ((ks ++ .code ['\x7b'] :: ms).flatMap Lexeme.shown).drop (header.brace + 1) = b := by
    rw [hm, List.append_cons]
    exact List.drop_left' (by simp [hbrace])
  rw [hdrop] at hsize
  obtain ⟨a', b', rfl, rfl⟩ := brace_of_closingBrace? hsize
  have hlen' := hms.length_shown
  rw [hb] at hlen'
  obtain ⟨x', d', y', rfl, hx'⟩ := hcharacter hlen'
  obtain ⟨ks', ms', rfl, rfl, hks', -, rfl, -⟩ := hms.cut (by decide) hb hx'
  refine ⟨x'.zip (ks'.flatMap Lexeme.shown), ks', ?_, ?_, shownText_zip hx', fun k hk => ?_⟩
  · rw [hm, List.append_cons, List.append_cons (ks.flatMap Lexeme.shown),
      List.zip_append (by simp [hx]), List.zip_append hx'.symm,
      List.drop_left' (by simp [hx, hbrace]),
      List.take_left' (by rw [List.length_zip, hx', Nat.min_self])]
  · rw [rawText_zip hx']
    exact hks'.stop_mark (by decide)
  · simp [hk]

theorem cutsComment_of_parseText {t : Text} {ls : List Lexeme} {e : ParseError}
    (hls : lexemes t = .ok ls) (h : ClassFile.parseText t = .error e) :
    CutsComment ls e.defect := by
  have hmask : mask t = .ok (ls.flatMap Lexeme.shown) := by
    rw [mask, hls]
    rfl
  rw [ClassFile.parseText, hmask] at h
  simp only [bind, Except.bind, pure, Except.pure] at h
  split at h
  · cases h
    exact fun hcut => by cases hcut
  · cases h
    exact fun hcut => by cases hcut
  · rename_i header hheaders
    split at h
    · cases h
      exact fun hcut => by cases hcut
    · rename_i size hsize
      split at h
      · cases h
        exact fun hcut => by cases hcut
      · split at h
        · rename_i e' he'
          cases h
          obtain ⟨body, ks, hbody, hks, hshown, hsub⟩ :=
            exists_body (lexemes_eq_ok_iff.mp hls) (by simp [hheaders]) hsize
          rw [hbody] at he'
          exact (cutsComment_of_itemsFrom hks hshown he').mono hsub
        · cases h

/-- **A class file of which the lexemes are read is never refused for a literal, a heredoc or a
method that does not end**, and for a comment only if one of its comments goes on over the end of a
line. -/
theorem cutShort_of_parse {t : Text} {ls : List Lexeme} {path : Option Text} {e : ParseError}
    (hls : lexemes t = .ok ls) (h : ClassFile.parse t path = .error e)
    (hcut : e.defect.isCutShort = true) :
    e.defect = .unterminatedComment ∧ ∃ body, .block body ∈ ls ∧ '\n' ∈ body := by
  unfold ClassFile.parse at h
  cases hparse : ClassFile.parseText t with
  | ok f =>
    rw [hparse] at h
    cases h
  | error e' =>
    have hbody := cutsComment_of_parseText hls hparse
    rw [hparse] at h
    cases path <;>
    · cases h
      exact hbody hcut

/-- A comment that begins behind a member is cut where its line ends. -/
example : (lexemes "class A \x7b\n    public $a; /* one\n    two */\n\x7d\n").isOk = true ∧
    ClassFile.parse "class A \x7b\n    public $a; /* one\n    two */\n\x7d\n" none =
      .error (Defect.unterminatedComment.atLine 1) := by decide +kernel

end EntityScaffold.Source
