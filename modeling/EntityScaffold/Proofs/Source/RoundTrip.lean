import EntityScaffold.Proofs.Source.ClassBody

/-!
# A class written is read again

The text of a class whose members are tidy is in layout already, and reading it gives the class
back, with one gap between neighbouring members.

* `Opening` — what stands before a class body: the lines of the file's beginning, then the header
  of the class.
* `Settled` — a class with such an opening and tidy members.
* `Settled.serialize_eq` — its text in layout is its text.
* `Settled.parse_serialize`, `Settled.serialize_again` — reading that text gives the class, and
  writing it again gives that text.
-/

set_option autoImplicit false

namespace EntityScaffold.Source

open Text

/-! ## Lines that do not disturb -/

/-- The line can stand anywhere in a file; it may be empty. -/
structure Row.Quiet (r : Row) : Prop where
  shows : Shows r.text r.shown
  oneLine : '\n' ∉ r.text
  last : ∀ c ∈ r.text.getLast?, isSpaceTab c = false
  words : ∃ words, headRun headWords r.shown = some words ∧ words.contains [] = false
  after : equalRun false r.text = some false

def Row.blank : Row := ⟨[], []⟩

theorem Row.blank_quiet : Row.blank.Quiet :=
  ⟨.nil, by simp [Row.blank], by simp [Row.blank], ⟨headWords, rfl, by decide⟩, rfl⟩

theorem Row.Sound.quiet {r : Row} (h : r.Sound) : r.Quiet where
  shows := h.shows
  oneLine := h.inked.oneLine
  last c hc := by
    cases hs : isSpaceTab c with
    | false => rfl
    | true => rw [← h.inked.last c hc, isBlank_of_isSpaceTab hs]
  words := h.words
  after := h.after

/-- Behind whole lines all words of a header are left to read. -/
theorem headRun_ofLines {ls : List Text}
    (h : ∀ l ∈ ls, ∃ words, headRun headWords l = some words ∧ words.contains [] = false) :
    headRun headWords (ofLines ls ++ ['\n']) = some headWords := by
  have hfeed : ∀ l ∈ ls, ∀ u : Text,
      headRun headWords (l ++ '\n' :: u) = headRun headWords u := by
    intro l hl u
    obtain ⟨words, hw, hc⟩ := h l hl
    have hstep : headStep words '\n' = some headWords := by
      rw [headStep, if_pos (by decide), if_neg (by simpa using hc)]
    rw [headRun_append, hw, Option.bind_some, headRun_cons, hstep, Option.bind_some]
  induction ls with
  | nil => rfl
  | cons l ls ih =>
    cases ls with
    | nil => exact hfeed l (by simp) []
    | cons k ks =>
      rw [ofLines_cons (by simp), List.append_assoc, List.cons_append, hfeed l (by simp)]
      exact ih (fun m hm => h m (List.mem_cons_of_mem l hm))
        fun m hm => hfeed m (List.mem_cons_of_mem l hm)

theorem equalRun_ofLines {ls : List Text} (h : ∀ l ∈ ls, equalRun false l = some false) :
    equalRun false (ofLines ls) = some false := by
  refine ofLines_induction (P := fun t => equalRun false t = some false) rfl rfl ?_ h
  intro s t hs ht
  rw [equalRun_append, hs, Option.bind_some, ht]

/-! ## Lines in layout -/

/-- Of two neighbouring lines in layout. -/
def Neighbours (l k : Text) : Prop :=
  (l ≠ [] ∨ k ≠ []) ∧
    (startsWith "use" l = true → IsImport l ∧ (k = [] ∨ startsWith "use" k = true))

theorem Laid.of_neighbours {ls : List Text} (hline : ∀ l ∈ ls, '\n' ∉ l)
    (hlast : ∀ l ∈ ls, ∀ c ∈ l.getLast?, isSpaceTab c = false) (h : ls.IsChain Neighbours) :
    Laid ls :=
  ⟨hline, hlast, h.imp fun _ _ => And.left, h.imp fun _ _ => And.right⟩

/-- A line that is not empty and no import. -/
def Steady (l : Text) : Prop := l ≠ [] ∧ startsWith "use" l = false

theorem Steady.neighbours {l : Text} (h : Steady l) (k : Text) : Neighbours l k :=
  ⟨.inl h.1, fun hu => by rw [h.2] at hu; cases hu⟩

theorem neighbours_empty {k : Text} (h : k ≠ []) : Neighbours [] k :=
  ⟨.inr h, fun hu => by cases hu⟩

theorem isChain_steady {ls ks : List Text} (hl : ∀ l ∈ ls, Steady l)
    (hk : ks.IsChain Neighbours) : (ls ++ ks).IsChain Neighbours := by
  induction ls with
  | nil => exact hk
  | cons l ls ih =>
    rw [List.cons_append]
    exact (ih fun m hm => hl m (List.mem_cons_of_mem l hm)).cons
      fun k _ => (hl l (by simp)).neighbours k

theorem Row.Sound.steady {r : Row} (h : r.Sound) {i : Text} (hi : IsIndent i) (hne : i ≠ []) :
    Steady (r.indented i).text := by
  refine ⟨(h.indented hi).inked.content, ?_⟩
  obtain ⟨c, i, rfl⟩ := List.exists_cons_of_ne_nil hne
  have hc := hi c (by simp)
  simp only [isSpaceTab, Bool.or_eq_true, beq_iff_eq] at hc
  rcases hc with rfl | rfl <;> rfl

/-! ## The lines of a class body -/

/-- The rows of the members behind the first one, each behind an empty row. -/
def moreRows (i : Text) (ps : List WrittenMember) : List Row :=
  ps.flatMap fun p => Row.blank :: p.2.map (Row.indented i)

/-- The rows of a class body. -/
def bodyRows (i : Text) (p : WrittenMember) (ps : List WrittenMember) : List Row :=
  p.2.map (Row.indented i) ++ moreRows i ps

section

variable {i : Text} {p : WrittenMember} {ps : List WrittenMember}

theorem quiet_moreRows (hi : IsIndent i) (h : AllTidy ps) : ∀ r ∈ moreRows i ps, r.Quiet := by
  intro r hr
  obtain ⟨q, hq, hr⟩ := List.mem_flatMap.mp hr
  rcases List.mem_cons.mp hr with rfl | hr
  · exact Row.blank_quiet
  · obtain ⟨s, hs, rfl⟩ := List.mem_map.mp hr
    exact (((h q hq).sound s hs).indented hi).quiet

theorem quiet_bodyRows (hi : IsIndent i) (hp : Tidy p.1 p.2) (h : AllTidy ps) :
    ∀ r ∈ bodyRows i p ps, r.Quiet := by
  intro r hr
  rcases List.mem_append.mp hr with hr | hr
  · obtain ⟨s, hs, rfl⟩ := List.mem_map.mp hr
    exact ((hp.sound s hs).indented hi).quiet
  · exact quiet_moreRows hi h r hr

theorem steady_rows (hi : IsIndent i) (hne : i ≠ []) (hp : Tidy p.1 p.2) :
    ∀ l ∈ (p.2.map (Row.indented i)).map (·.text), Steady l := by
  intro l hl
  obtain ⟨r, hr, rfl⟩ := List.mem_map.mp hl
  obtain ⟨s, hs, rfl⟩ := List.mem_map.mp hr
  exact (hp.sound s hs).steady hi hne

theorem isChain_moreRows (hi : IsIndent i) (hne : i ≠ []) (h : AllTidy ps) {ks : List Text}
    (hk : ks.IsChain Neighbours) :
    ((moreRows i ps).map (·.text) ++ ks).IsChain Neighbours := by
  induction ps with
  | nil => exact hk
  | cons q ps ih =>
    have hrest := ih fun p hp => h p (List.mem_cons_of_mem q hp)
    have hq := h q (by simp)
    have hrows := isChain_steady (steady_rows hi hne hq) hrest
    obtain ⟨r, rs, hr, _⟩ := hq.flush
    have hfirst : (r.indented i).text ≠ [] :=
      ((hq.sound r (by rw [hr]; exact List.mem_cons_self)).steady hi hne).1
    have hsplit : (moreRows i (q :: ps)).map (·.text) ++ ks =
        [] :: ((q.2.map (Row.indented i)).map (·.text) ++
          ((moreRows i ps).map (·.text) ++ ks)) := by
      simp [moreRows, Row.blank]
    rw [hsplit]
    refine hrows.cons fun k hk => ?_
    rw [hr] at hk
    have : k = (r.indented i).text := by simpa using hk.symm
    rw [this]
    exact neighbours_empty hfirst

theorem isChain_bodyRows (hi : IsIndent i) (hne : i ≠ []) (hp : Tidy p.1 p.2) (h : AllTidy ps)
    {ks : List Text} (hk : ks.IsChain Neighbours) :
    ((bodyRows i p ps).map (·.text) ++ ks).IsChain Neighbours := by
  rw [bodyRows, List.map_append, List.append_assoc]
  exact isChain_steady (steady_rows hi hne hp) (isChain_moreRows hi hne h hk)

/-- The text between the braces is that of the rows, between line feeds. -/
theorem body_eq_ofLines {f : Row → Text} (hf : ∀ r : Row, f (r.indented i) = i ++ f r)
    (hblank : f .blank = []) (hp : p.2 ≠ []) (h : ∀ q ∈ ps, q.2 ≠ []) :
    body f i p.2 (rowsOf ps) = '\n' :: ofLines ((bodyRows i p ps).map f) ++ ['\n'] := by
  have hindent : ∀ q : WrittenMember, q.2 ≠ [] → ((q.2.map (Row.indented i)).map f ≠ [] ∧
      i ++ hung i (q.2.map f) = ofLines ((q.2.map (Row.indented i)).map f)) := by
    intro q hq
    obtain ⟨r, rs, hr⟩ := List.exists_cons_of_ne_nil hq
    refine ⟨by simp [hq], ?_⟩
    rw [hr, List.map_cons, indent_hung, List.map_map, ← List.map_cons, List.map_map]
    congr 1
    exact List.map_congr_left fun r _ => (hf r).symm
  have hbehind : behind f i (rowsOf ps) =
      (if ps = [] then [] else '\n' :: ofLines ((moreRows i ps).map f)) ++ ['\n'] := by
    induction ps with
    | nil => rfl
    | cons q ps ih =>
      obtain ⟨hne, heq⟩ := hindent q (h q (by simp))
      have hrest := ih fun r hr => h r (List.mem_cons_of_mem q hr)
      have hrows : (moreRows i (q :: ps)).map f =
          [] :: ((q.2.map (Row.indented i)).map f ++ (moreRows i ps).map f) := by
        simp [moreRows, hblank]
      have hsplit : behind f i (rowsOf (q :: ps)) =
          '\n' :: '\n' :: ((i ++ hung i (q.2.map f)) ++ behind f i (rowsOf ps)) := by
        simp [behind, rowsOf]
      rw [hsplit, heq, hrest, if_neg (List.cons_ne_nil q ps), hrows,
        ofLines_cons (List.append_ne_nil_of_left_ne_nil hne _)]
      cases ps with
      | nil => simp [moreRows]
      | cons r rs =>
        have hmore : (moreRows i (r :: rs)).map f ≠ [] := by simp [moreRows]
        rw [if_neg (List.cons_ne_nil r rs), ofLines_append hne hmore]
        simp
  obtain ⟨hne, heq⟩ := hindent p hp
  have hsplit : body f i p.2 (rowsOf ps) =
      '\n' :: ((i ++ hung i (p.2.map f)) ++ behind f i (rowsOf ps)) := by
    simp [body]
  rw [hsplit, heq, hbehind, bodyRows, List.map_append]
  cases ps with
  | nil => simp [moreRows]
  | cons r rs =>
    have hmore : (moreRows i (r :: rs)).map f ≠ [] := by simp [moreRows]
    rw [if_neg (List.cons_ne_nil r rs), ofLines_append hne hmore]
    simp

/-- The lines of a member as it is written are those of its rows. -/
theorem render_of_tidy (hp : Tidy p.1 p.2) :
    p.1.render i = (p.2.map (Row.indented i)).map (·.text) := by
  obtain ⟨r, rs, hr, _⟩ := hp.flush
  have hlines : lines p.1.text = p.2.map (·.text) := by
    rw [hp.text, lines_ofLines (by simp [hr])]
    intro l hl
    obtain ⟨q, hq, rfl⟩ := List.mem_map.mp hl
    exact (hp.sound q hq).inked.oneLine
  rw [Member.render, indentLines, hlines, List.map_map, List.map_map]
  refine List.map_congr_left fun q hq => ?_
  have hblank : isBlankText q.text = false := (hp.sound q hq).inked.not_all fun _ h => h
  simp [hblank, Row.indented]

theorem render_spaced (hp : Tidy p.1 p.2) (h : AllTidy ps) :
    (spaced (p.1 :: ps.map Prod.fst)).flatMap (·.render i) = (bodyRows i p ps).map (·.text) := by
  have hmore : ((ps.map Prod.fst).flatMap fun m => [Item.gap, .member m]).flatMap (·.render i) =
      (moreRows i ps).map (·.text) := by
    induction ps with
    | nil => rfl
    | cons q ps ih =>
      have hq : q.1.render i = _ := render_of_tidy (i := i) (h q (by simp))
      have hrest := ih fun r hr => h r (List.mem_cons_of_mem q hr)
      have hrows : (moreRows i (q :: ps)).map (·.text) =
          [] :: ((q.2.map (Row.indented i)).map (·.text) ++ (moreRows i ps).map (·.text)) := by
        simp [moreRows, Row.blank]
      rw [hrows, List.map_cons, List.flatMap_cons, List.flatMap_append, hrest, ← hq]
      simp [Item.render]
  rw [spaced_cons, List.flatMap_cons, hmore, bodyRows, List.map_append, Item.render,
    render_of_tidy hp]

end

/-! ## The whole file -/

/-- What stands before a class body: the lines `hs` between the beginning of the file and the
header of the class `name`, and that header. -/
structure Opening (o name : Text) (hs : List Row) : Prop where
  text : o = ofLines (tagLines ++ hs.map (·.text)) ++ '\n' :: ("class " ++ name ++ "\n\x7b")
  quiet : ∀ r ∈ hs, r.Quiet
  first : ∃ d t ls, hs.map (·.text) = (d :: t) :: ls ∧ isBlank d = false
  chain : (tagLines ++ hs.map (·.text) ++ ["class " ++ name]).IsChain Neighbours
  start : name.head?.any isNameStart = true
  plain : Plain name

/-- A class as it is written: its text is in layout but for the gaps, and it can be read again. -/
structure Settled (f : ClassFile) : Prop where
  opening : ∃ hs, Opening f.opening f.className hs
  members : ∀ m ∈ f.members, ∃ rows, Tidy m rows
  nonempty : f.members ≠ []
  closing : f.closing = "\x7d\n"
  indent : IsIndent f.indent
  indented : f.indent ≠ []

/-- The members with their rows. -/
theorem exists_written {ms : List Member} (h : ∀ m ∈ ms, ∃ rows, Tidy m rows) :
    ∃ ps : List WrittenMember, AllTidy ps ∧ ps.map Prod.fst = ms := by
  induction ms with
  | nil => exact ⟨[], by simp [AllTidy], rfl⟩
  | cons m ms ih =>
    obtain ⟨rows, hm⟩ := h m (by simp)
    obtain ⟨ps, hps, hmap⟩ := ih fun k hk => h k (List.mem_cons_of_mem m hk)
    refine ⟨(m, rows) :: ps, ?_, by simp [hmap]⟩
    intro p hp
    rcases List.mem_cons.mp hp with rfl | hp
    · exact hm
    · exact hps p hp

theorem AllTidy.ne_nil {ps : List WrittenMember} (h : AllTidy ps) : ∀ q ∈ ps, q.2 ≠ [] := by
  intro q hq
  obtain ⟨r, rs, hr, _⟩ := (h q hq).flush
  simp [hr]

section

variable {f : ClassFile} {hs : List Row} {p : WrittenMember} {ps : List WrittenMember}

/-- The text of a class as its items stand, in one piece. -/
theorem render_normalized (hp : Tidy p.1 p.2) (h : AllTidy ps)
    (hmembers : f.members = p.1 :: ps.map Prod.fst) :
    f.normalized.render = f.opening ++ body (·.text) f.indent p.2 (rowsOf ps) ++ f.closing := by
  obtain ⟨r, rs, hr, _⟩ := hp.flush
  have hink := (hp.sound r (by rw [hr]; exact List.mem_cons_self)).inked
  have hbody := body_eq_ofLines (f := (·.text)) (i := f.indent) (p := p)
    (fun _ => rfl) rfl (by simp [hr]) h.ne_nil
  have hne : ofLines ((bodyRows f.indent p ps).map (·.text)) ≠ [] := by
    intro hnil
    have hlen := congrArg List.length hnil
    rw [bodyRows, hr] at hlen
    cases hrest : (rs.map (Row.indented f.indent) ++ moreRows f.indent ps).map (·.text) with
    | nil =>
      rw [List.map_cons, List.cons_append, List.map_cons, hrest, ofLines_singleton,
        Row.indented, List.length_append, List.length_nil] at hlen
      exact hink.content (List.length_eq_zero_iff.mp (by omega))
    | cons l ls =>
      rw [List.map_cons, List.cons_append, List.map_cons, hrest, ofLines_cons (by simp)] at hlen
      simp at hlen
  have hrender : f.normalized.items.flatMap (·.render f.normalized.indent) =
      (bodyRows f.indent p ps).map (·.text) := by
    rw [ClassFile.normalized, hmembers]
    exact render_spaced hp h
  rw [ClassFile.render, hrender]
  simp only [ClassFile.normalized, if_neg hne]
  rw [hbody]

/-- The lines of the file. -/
def fileLines (name i : Text) (hs : List Row) (p : WrittenMember) (ps : List WrittenMember) : List Text :=
  (hs.map (·.text) ++ ["class " ++ name]) ++
    (['\x7b'] :: ((bodyRows i p ps).map (·.text) ++ [['\x7d']]))

theorem bodyRows_ne_nil (i : Text) (ps : List WrittenMember) (hp : Tidy p.1 p.2) (g : Row → Text) :
    (bodyRows i p ps).map g ≠ [] := by
  obtain ⟨r, rs, hr, _⟩ := hp.flush
  simp [bodyRows, hr]

theorem text_eq_ofLines {i : Text} {name o : Text} (ho : Opening o name hs) (hp : Tidy p.1 p.2)
    (h : AllTidy ps) :
    o ++ body (·.text) i p.2 (rowsOf ps) ++ "\x7d\n" =
      ofLines (tagLines ++ (fileLines name i hs p ps ++ [[]])) := by
  obtain ⟨r, rs, hr, _⟩ := hp.flush
  have hbody := body_eq_ofLines (f := (·.text)) (i := i) (p := p) (fun _ => rfl) rfl
    (by simp [hr]) h.ne_nil
  have hb := bodyRows_ne_nil i ps hp (·.text)
  have htag : tagLines ++ hs.map (·.text) ≠ [] := by simp [tagLines]
  have hlines : tagLines ++ (fileLines name i hs p ps ++ [[]]) =
      (tagLines ++ hs.map (·.text)) ++ (["class " ++ name] ++ ([['\x7b']] ++
        ((bodyRows i p ps).map (·.text) ++ [['\x7d'], []]))) := by
    simp [fileLines]
  have hend : ofLines [['\x7d'], []] = "\x7d\n" := rfl
  rw [hlines, ofLines_append htag (by simp), ofLines_append (List.cons_ne_nil _ []) (by simp),
    ofLines_append (List.cons_ne_nil _ []) (by simp [hb]), ofLines_append hb (by simp), hend, hbody,
    ho.text, ofLines_singleton, ofLines_singleton]
  simp

theorem laid_file {i name o : Text} (ho : Opening o name hs) (hi : IsIndent i) (hne : i ≠ [])
    (hp : Tidy p.1 p.2) (h : AllTidy ps) :
    Laid (tagLines ++ (fileLines name i hs p ps ++ [[]])) := by
  have hclass : ∀ c ∈ ("class " ++ name : Text), c ≠ '\n' := by
    intro c hc
    have hword : ∀ c ∈ ("class " : Text), c ≠ '\n' := by decide
    rcases List.mem_append.mp hc with hc | hc
    · exact hword c hc
    · exact ne_of_isAsciiWord (ho.plain c hc) (by decide)
  have hclassLast : ∀ c ∈ ("class " ++ name : Text).getLast?, isSpaceTab c = false := by
    have hname : name ≠ [] := by
      intro hn
      have := ho.start
      rw [hn] at this
      cases this
    intro c hc
    rw [getLast?_append_of_ne_nil _ hname] at hc
    have hb := isBlank_of_isAsciiWord (ho.plain c (List.mem_of_getLast? hc))
    cases hs : isSpaceTab c with
    | false => rfl
    | true => rw [← hb, isBlank_of_isSpaceTab hs]
  have hquiet := quiet_bodyRows hi hp h
  have htags : ∀ l ∈ tagLines, '\n' ∉ l ∧ ∀ c ∈ l.getLast?, isSpaceTab c = false := by decide
  have hlines : ∀ l ∈ tagLines ++ (fileLines name i hs p ps ++ [[]]),
      '\n' ∉ l ∧ ∀ c ∈ l.getLast?, isSpaceTab c = false := by
    intro l hl
    simp only [fileLines, List.append_assoc, List.cons_append, List.nil_append, List.mem_append,
      List.mem_cons, List.not_mem_nil, or_false] at hl
    rcases hl with hl | hl | rfl | rfl | hl | rfl | rfl
    · exact htags l hl
    · obtain ⟨r, hr, rfl⟩ := List.mem_map.mp hl
      exact ⟨(ho.quiet r hr).oneLine, (ho.quiet r hr).last⟩
    · exact ⟨fun hm => hclass _ hm rfl, hclassLast⟩
    · decide
    · obtain ⟨r, hr, rfl⟩ := List.mem_map.mp hl
      exact ⟨(hquiet r hr).oneLine, (hquiet r hr).last⟩
    · decide
    · decide
  refine .of_neighbours (fun l hl => (hlines l hl).1) (fun l hl => (hlines l hl).2) ?_
  -- the lines of the opening are apart by assumption, all others are no imports
  have hsteady : Steady ("class " ++ name) := ⟨by simp, rfl⟩
  have hbrace : Steady ['\x7d'] := ⟨by simp, rfl⟩
  have hopen : Steady ['\x7b'] := ⟨by simp, rfl⟩
  have hclose : ([['\x7d'], []] : List Text).IsChain Neighbours :=
    isChain_steady (List.forall_mem_singleton.mpr hbrace) (.singleton [])
  have hrest := isChain_steady (List.forall_mem_singleton.mpr hopen)
    (isChain_bodyRows hi hne hp h hclose)
  have hsplit : tagLines ++ (fileLines name i hs p ps ++ [[]]) =
      (tagLines ++ hs.map (·.text) ++ ["class " ++ name]) ++
        ([['\x7b']] ++ ((bodyRows i p ps).map (·.text) ++ [['\x7d'], []])) := by
    simp [fileLines]
  rw [hsplit]
  refine ho.chain.append hrest fun l hl k _ => ?_
  rw [List.getLast?_concat] at hl
  cases hl
  exact hsteady.neighbours k

/-- **The text of a settled class is in layout.** -/
theorem normalizeWhitespace_file {i name o : Text} (ho : Opening o name hs) (hi : IsIndent i)
    (hne : i ≠ []) (hp : Tidy p.1 p.2) (h : AllTidy ps) :
    normalizeWhitespace (o ++ body (·.text) i p.2 (rowsOf ps) ++ "\x7d\n") =
      o ++ body (·.text) i p.2 (rowsOf ps) ++ "\x7d\n" := by
  obtain ⟨d, t, ls, hfirst, hd⟩ := ho.first
  have hlaid := laid_file ho hi hne hp h
  have hquiet := quiet_bodyRows hi hp h
  have hlines : fileLines name i hs p ps = (d :: t) :: (ls ++ (["class " ++ name] ++
      (['\x7b'] :: ((bodyRows i p ps).map (·.text) ++ [['\x7d']])))) := by
    simp [fileLines, hfirst]
  have hequal : equalRun false (ofLines (fileLines name i hs p ps ++ [[]])) = some false := by
    refine equalRun_ofLines fun l hl => ?_
    simp only [fileLines, List.append_assoc, List.cons_append, List.nil_append, List.mem_append,
      List.mem_cons, List.not_mem_nil, or_false] at hl
    rcases hl with hl | rfl | rfl | hl | rfl | rfl
    · obtain ⟨r, hr, rfl⟩ := List.mem_map.mp hl
      exact (ho.quiet r hr).after
    · exact (equalRun_append _ _ _).trans (Piece.equalRun_of_plain ho.plain)
    · rfl
    · obtain ⟨r, hr, rfl⟩ := List.mem_map.mp hl
      exact (hquiet r hr).after
    · rfl
    · rfl
  have hlast : ∀ c ∈ (ofLines (fileLines name i hs p ps)).getLast?, (c == '\n') = false := by
    have hsplit : fileLines name i hs p ps = (hs.map (·.text) ++ ["class " ++ name] ++
        (['\x7b'] :: (bodyRows i p ps).map (·.text))) ++ [['\x7d']] := by
      simp [fileLines]
    intro c hc
    rw [hsplit, ofLines_append (by simp) (by simp), ofLines_singleton,
      getLast?_append_of_ne_nil _ (by simp)] at hc
    have : c = '\x7d' := by simpa using hc.symm
    rw [this]
    rfl
  rw [text_eq_ofLines ho hp h]
  rw [hlines] at hlaid hequal hlast ⊢
  exact normalizeWhitespace_of_laid hlaid ⟨false, hequal⟩ hd hlast

end

/-! ## Reading the file -/

theorem shows_openTag : Shows openTag openTag := by
  refine ⟨[.code ['<'], .code ['?'], .code ['p'], .code ['h'], .code ['p']], rfl, rfl,
    fun line u => ?_⟩
  have hless : lexeme '<' ('?' :: 'p' :: 'h' :: 'p' :: u) =
      .ok (.code ['<'], '?' :: 'p' :: 'h' :: 'p' :: u) := by
    simp [lexeme, startsWith, after?]
  change lexemesFrom line ('<' :: '?' :: 'p' :: 'h' :: 'p' :: u) = _
  rw [lexemesFrom_cons hless, lexemesFrom_cons (lexeme_of_isCode (by decide) _),
    lexemesFrom_cons (lexeme_of_isCode (by decide) _),
    lexemesFrom_cons (lexeme_of_isCode (by decide) _),
    lexemesFrom_cons (lexeme_of_isCode (by decide) _)]
  change Except.map _ (Except.map _ (Except.map _ (Except.map _ (Except.map _
    (lexemesFrom line u))))) = (lexemesFrom line u).map _
  cases lexemesFrom line u <;> rfl

/-- The rows with which a file begins. -/
def tagRows : List Row := [⟨openTag, openTag⟩, ⟨strictTypes, strictTypes⟩, .blank]

theorem shows_tagRows : ∀ r ∈ tagRows, Shows r.text r.shown := by
  intro r hr
  simp only [tagRows, List.mem_cons, List.not_mem_nil, or_false] at hr
  rcases hr with rfl | rfl | rfl
  · exact shows_openTag
  · exact .code (by decide)
  · exact .nil

theorem words_tagRows : ∀ l ∈ tagRows.map (·.shown),
    ∃ words, headRun headWords l = some words ∧ words.contains [] = false := by
  intro l hl
  simp only [tagRows, List.map_cons, List.map_nil, List.mem_cons, List.not_mem_nil, or_false] at hl
  rcases hl with rfl | rfl | rfl
  · exact ⟨[], by decide, by decide⟩
  · exact ⟨headWords, by decide, by decide⟩
  · exact ⟨headWords, by decide, by decide⟩

section

variable {i name o : Text} {hs : List Row} {p : WrittenMember} {ps : List WrittenMember}

/-- What the mask shows of an opening, up to the header of the class. -/
def shownOpening (hs : List Row) : Text :=
  ofLines (tagRows.map (·.shown) ++ hs.map (·.shown)) ++ ['\n']

theorem shows_opening (ho : Opening o name hs) :
    Shows o (shownOpening hs ++ ("class " ++ name ++ "\n\x7b")) := by
  have hquiet : ∀ r ∈ tagRows ++ hs, Shows r.text r.shown := by
    intro r hr
    rcases List.mem_append.mp hr with hr | hr
    · exact shows_tagRows r hr
    · exact (ho.quiet r hr).shows
  have hlines := shows_ofLines hquiet
  rw [List.map_append, List.map_append] at hlines
  have hname : Shows name name := .code fun c hc => isCode_of_isAsciiWord (ho.plain c hc)
  have hhead : Shows ("class " ++ name ++ "\n\x7b") ("class " ++ name ++ "\n\x7b") :=
    ((Shows.code (by decide)).append hname).append (.code (by decide))
  have hfeed : Shows ['\n'] ['\n'] := .code (by decide)
  rw [ho.text, List.append_cons]
  exact (hlines.append hfeed).append hhead

/-- The header of the class is the only one. -/
theorem classHeaders_file (ho : Opening o name hs) (hi : IsIndent i) (hp : Tidy p.1 p.2)
    (h : AllTidy ps) :
    classHeaders (shownOpening hs ++ ("class " ++ name ++ "\n\x7b" ++
        (body (·.shown) i p.2 (rowsOf ps) ++ "\x7d\n"))) =
      [⟨name, (shownOpening hs).length,
        (shownOpening hs).length + ("class " ++ name ++ "\n\x7b" : Text).length - 1⟩] := by
  obtain ⟨c, w, rfl⟩ : ∃ c w, name = c :: w := by
    cases name with
    | nil => cases ho.start
    | cons c w => exact ⟨c, w, rfl⟩
  have hopening : headRun headWords (shownOpening hs) = some headWords := by
    refine headRun_ofLines fun l hl => ?_
    rcases List.mem_append.mp hl with hl | hl
    · exact words_tagRows l hl
    · obtain ⟨r, hr, rfl⟩ := List.mem_map.mp hl
      exact (ho.quiet r hr).words
  have hbody := body_eq_ofLines (f := (·.shown)) (i := i) (p := p) (fun _ => rfl) rfl
    (by obtain ⟨r, rs, hr, _⟩ := hp.flush; simp [hr]) h.ne_nil
  have hrows : headRun headWords (ofLines ((bodyRows i p ps).map (·.shown)) ++ ['\n']) =
      some headWords := by
    refine headRun_ofLines fun l hl => ?_
    obtain ⟨r, hr, rfl⟩ := List.mem_map.mp hl
    exact (quiet_bodyRows hi hp h r hr).words
  have hrest : headRun headWords (body (·.shown) i p.2 (rowsOf ps) ++ "\x7d\n") =
      some headWords := by
    have hfeed : headStep headWords '\n' = some headWords := by decide
    have hend : headRun headWords "\x7d\n" = some headWords := by decide
    rw [hbody, headRun_append, List.cons_append, headRun_cons, hfeed, Option.bind_some, hrows,
      Option.bind_some, hend]
  refine classHeaders_of_one hopening ?_ ?_ ?_ ?_ hrest ?_
  · rw [shownOpening, List.getLast?_concat]
  · simpa using ho.start
  · exact fun d hd => isWord_of_isAsciiWord (ho.plain d (List.mem_cons_of_mem c hd))
  · exact fun d hd => isBlank_of_isAsciiWord (ho.plain d hd)
  · rw [getLast?_append_of_ne_nil _ (by simp)]
    rfl

/-- **Reading the text of a class gives the class.** -/
theorem parseText_file (ho : Opening o name hs) (hi : IsIndent i) (hne : i ≠ [])
    (hp : Tidy p.1 p.2) (h : AllTidy ps) :
    ClassFile.parseText (o ++ body (·.text) i p.2 (rowsOf ps) ++ "\x7d\n") =
      .ok { className := name, opening := o, items := spaced (p.1 :: ps.map Prod.fst)
            closing := "\x7d\n", indent := i, path := none } := by
  have hopening := shows_opening ho
  have hbody := shows_body hi hp h
  have hend : Shows "\x7d\n" "\x7d\n" := .code (by decide)
  have hmask := mask_of_shows (hopening.append (hbody.append hend))
  have hheaders := classHeaders_file ho hi hp h
  have hlen : (shownOpening hs ++ ("class " ++ name ++ "\n\x7b")).length = o.length :=
    hopening.length
  rw [← List.append_assoc] at hheaders
  have hbrace : (shownOpening hs).length + ("class " ++ name ++ "\n\x7b" : Text).length - 1 + 1 =
      o.length := by
    rw [← hlen, List.length_append]
    simp only [List.length_append, String.reduceToList, List.length_cons, List.length_nil]
    omega
  have hclose : closingBrace? 1 (body (·.shown) i p.2 (rowsOf ps) ++ "\x7d\n") =
      some (body (·.shown) i p.2 (rowsOf ps)).length := by
    rw [closingBrace?_body hi hp h]
    rfl
  have hmain := parseText_of_parts hmask hlen hbody.length hheaders hbrace hclose (by decide)
    (itemsOf_body hi hp h _)
  rwa [detectIndent_body hi hne hp, ← List.append_assoc] at hmain

/-! ## Settled classes -/

/-- **The text of a settled class in layout is its text as it stands.** -/
theorem Settled.serialize_eq {f : ClassFile} (h : Settled f) :
    f.serialize = f.normalized.render := by
  obtain ⟨ps, hps, hmap⟩ := exists_written h.members
  obtain ⟨hs, ho⟩ := h.opening
  cases ps with
  | nil => exact absurd hmap.symm h.nonempty
  | cons p ps =>
    have hp := hps p (by simp)
    have htidy : AllTidy ps := fun q hq => hps q (List.mem_cons_of_mem p hq)
    rw [ClassFile.serialize, render_normalized hp htidy hmap.symm, h.closing,
      normalizeWhitespace_file ho h.indent h.indented hp htidy]

/-- **Reading the text of a settled class gives the class**, with one gap between neighbouring
members. -/
theorem Settled.parse_serialize {f : ClassFile} (h : Settled f) (path : Option Text) :
    ClassFile.parse f.serialize path = .ok { f.normalized with path := path } := by
  obtain ⟨ps, hps, hmap⟩ := exists_written h.members
  obtain ⟨hs, ho⟩ := h.opening
  cases ps with
  | nil => exact absurd hmap.symm h.nonempty
  | cons p ps =>
    have hp := hps p (by simp)
    have htidy : AllTidy ps := fun q hq => hps q (List.mem_cons_of_mem p hq)
    have htext := parseText_file ho h.indent h.indented hp htidy
    rw [h.serialize_eq, render_normalized hp htidy hmap.symm, h.closing]
    simp only [ClassFile.parse, htext, ClassFile.normalized, h.closing, ← hmap, List.map_cons]

/-- **Writing a settled class a second time changes nothing.** -/
theorem Settled.serialize_again {f : ClassFile} (h : Settled f) (path : Option Text) :
    ∃ g, ClassFile.parse f.serialize path = .ok g ∧ g.serialize = f.serialize :=
  ⟨_, h.parse_serialize path, (alike_normalized f path).serialize_eq⟩

end

end EntityScaffold.Source
