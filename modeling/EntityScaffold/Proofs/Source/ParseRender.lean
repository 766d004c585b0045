import EntityScaffold.Proofs.Source.Freestanding

/-!
# Reading undoes putting together

A class that has been put together from freestanding members, behind any indentation of spaces and
tabs and with any gaps between them, is read as a class with exactly these members.

* `ClassFile.Framed` — what stands around the members: the header of one class, and the brace that
  closes it.
* `Stacked` — the rows of items one below the other, with what the mask shows of them; where the
  class is closed, which members are cut out and which headers are found follows by induction.
* `parse_render` — the whole way.
-/

set_option autoImplicit false

namespace EntityScaffold.Source

open Text

/-! ## Around the members -/

/-- What stands in front of the members ends with the brace of the only class header there, and what
stands behind them is the brace that closes the class, with nothing but blanks and comments after
it. -/
structure ClassFile.Framed (f : ClassFile) : Prop where
  opens : ∃ m header, mask f.opening = .ok m ∧ classHeaders m = [header] ∧
    header.className = f.className ∧ header.brace + 1 = f.opening.length
  closes : ∃ m, mask f.closing = .ok ('\x7d' :: m) ∧ isBlankText m = true

/-- The mask of a text is put together from what its parts show. -/
theorem mask_append {t m u k : Text} (ht : Shows t m) (hu : mask u = .ok k) :
    mask (t ++ u) = .ok (m ++ k) := by
  obtain ⟨ls, rfl, -, hls⟩ := ht
  cases hks : lexemes u with
  | error e =>
    rw [mask, hks] at hu
    cases hu
  | ok ks =>
    rw [mask, hks] at hu
    obtain rfl : ks.flatMap Lexeme.shown = k := Except.ok.inj hu
    have hread := (lexemes_eq_ok_iff.mp hks).lexemesFrom_eq (1 + countChar '\n' t)
    rw [lexemesFrom] at hread
    rw [mask, lexemes, hls, hread]
    simp [Except.map]

/-- The mask of an opening, with the brace at its end. -/
theorem ClassFile.Framed.exists_opening {f : ClassFile} (h : f.Framed) :
    ∃ m header, Shows f.opening (m ++ ['\x7b']) ∧ classHeaders (m ++ ['\x7b']) = [header] ∧
      header.className = f.className ∧ header.brace = m.length ∧
      f.opening.length = m.length + 1 := by
  obtain ⟨m, header, hmask, hheaders, hname, hbrace⟩ := h.opens
  obtain ⟨a, b, rfl, ha⟩ := brace_of_classHeaders (hheaders ▸ List.mem_singleton_self header)
  have hlen := length_mask hmask
  rw [List.length_append, List.length_cons] at hlen
  obtain rfl : b = [] := List.length_eq_zero_iff.mp (by omega)
  obtain ⟨o, e, ho⟩ : ∃ o e, f.opening = o ++ [e] := by
    rcases List.eq_nil_or_concat f.opening with hnil | ⟨o, e, ho⟩
    · rw [hnil] at hbrace
      cases hbrace
    · exact ⟨o, e, by rw [ho, List.concat_eq_append]⟩
  have holen : f.opening.length = o.length + 1 := by rw [ho]; simp
  rw [ho] at hmask
  obtain ⟨rfl, hshows, -⟩ := mask_cut hmask (by omega) (by decide)
  exact ⟨a, header, ho ▸ hshows, hheaders, hname, ha, by omega⟩

/-! ## The rows of items -/

/-- The rows of items one below the other, each with a line feed behind it, and what the mask shows
of them. -/
inductive Stacked (i : Text) : List Item → Text → Text → Prop where
  | nil : Stacked i [] [] []
  | gap {items : List Item} {t k : Text} (more : Stacked i items t k) :
      Stacked i (.gap :: items) ('\n' :: t) ('\n' :: k)
  | member {m : Member} {items : List Item} {t k : Text} (p : m.Placed i)
      (more : Stacked i items t k) :
      Stacked i (.member m :: items) (p.front ++ (p.text ++ '\n' :: t))
        (p.front ++ (p.shown ++ '\n' :: k))

theorem exists_stacked {i : Text} (hi : IsIndent i) {items : List Item}
    (h : ∀ m ∈ membersOf items, m.Freestanding) : ∃ t k, Stacked i items t k := by
  induction items with
  | nil => exact ⟨[], [], .nil⟩
  | cons item items ih =>
    cases item with
    | gap =>
      obtain ⟨t, k, hmore⟩ := ih h
      exact ⟨_, _, .gap hmore⟩
    | member m =>
      rw [membersOf_member] at h
      obtain ⟨t, k, hmore⟩ := ih fun n hn => h n (List.mem_cons_of_mem m hn)
      obtain ⟨p⟩ := (h m List.mem_cons_self).exists_placed hi
      exact ⟨_, _, .member p hmore⟩

namespace Stacked

variable {i t k : Text} {items : List Item}

/-- The rows are those of the items. -/
theorem eq_rows (h : Stacked i items t k) : rows (items.flatMap (·.render i)) = t := by
  have happend : ∀ ls ks : List Text, rows (ls ++ ks) = rows ls ++ rows ks :=
    fun ls ks => List.flatMap_append
  induction h with
  | nil => rfl
  | gap _ ih =>
    rw [List.flatMap_cons, happend, ih]
    rfl
  | @member m items t k p _ ih =>
    have hrows : rows (m.render i) = p.front ++ p.text ++ ['\n'] := by
      have hne : lines m.text ≠ [] := splitAt_ne_nil _ _
      rw [← p.render, ofLines_lineFeed (by simpa [Member.render, indentLines] using hne)]
    rw [List.flatMap_cons, happend, ih, Item.render, hrows]
    simp

theorem shows (h : Stacked i items t k) : Shows t k := by
  have hfeed : Shows ['\n'] ['\n'] := .code (by decide)
  induction h with
  | nil => exact .nil
  | gap _ ih => exact hfeed.append ih
  | member p _ ih =>
    have hfront : Shows p.front p.front :=
      .code fun c hc => isCode_of_isBlank (isBlank_of_isGap (p.gap c hc))
    have := hfront.append (p.shows.append ih)
    simpa only [List.append_assoc, List.singleton_append] using this

/-- The class is closed behind the rows. -/
theorem closingBrace? (h : Stacked i items t k) (u : Text) :
    closingBrace? 1 (k ++ u) = (Source.closingBrace? 1 u).map (k.length + ·) := by
  have hplain : ∀ {g : Text} (u : Text), (∀ c ∈ g, isGap c = true) →
      Source.closingBrace? 1 (g ++ u) = (Source.closingBrace? 1 u).map (g.length + ·) :=
    fun u hg => closingBrace?_append (fun hmem => absurd (hg _ hmem) (by decide))
      (fun hmem => absurd (hg _ hmem) (by decide)) 1
  have hmap : ∀ {a b : Nat} {o : Option Nat},
      (o.map (b + ·)).map (a + ·) = o.map (a + b + ·) := by
    intro a b o
    rw [Option.map_map]
    congr 1
    funext n
    simp only [Function.comp_apply]
    omega
  induction h with
  | nil => simp
  | @gap items t k _ ih =>
    have := hplain (g := ['\n']) (k ++ u) (by decide)
    rw [ih, hmap] at this
    rw [List.length_cons, Nat.add_comm k.length]
    exact this
  | @member m items t k p _ ih =>
    have hfeed := hplain (g := ['\n']) (k ++ u) (by decide)
    rw [ih, hmap] at hfeed
    rw [List.append_assoc, List.append_assoc, hplain _ p.gap, p.closing, List.cons_append,
      ← List.singleton_append, hfeed, hmap, hmap]
    simp only [List.length_append, List.length_cons, List.length_nil]
    congr 1
    funext n
    omega

/-- No word that opens a class stands in the rows. -/
theorem noWord (h : Stacked i items t k) {u : Text}
    (hu : ∀ prev : Option Char, prev.any isWord = false → hasClassWord prev u = false)
    {prev : Option Char} (hprev : prev.any isWord = false) :
    hasClassWord prev (k ++ u) = false := by
  have hfeed : (some '\n').any isWord = false := by decide
  induction h generalizing prev with
  | nil => exact hu prev hprev
  | gap _ ih =>
    exact hasClassWord_append_line (s := []) (hasClassWord_of_notMem (by decide) prev) (ih hfeed)
  | member p _ ih =>
    have hmember := p.noWord prev hprev
    rw [← List.append_assoc] at hmember
    have := hasClassWord_append_line hmember (ih hfeed)
    simpa only [List.append_assoc, List.cons_append] using this

theorem length_le (h : Stacked i items t k) : items.length ≤ t.length := by
  induction h with
  | nil => exact Nat.le_refl _
  | gap _ ih => exact Nat.succ_le_succ ih
  | member p _ ih =>
    simp only [List.length_append, List.length_cons]
    omega

/-- A single line feed is not the row of a member. -/
theorem membersOf_eq_nil (h : Stacked i items t k) (ht : t.length ≤ 1) : membersOf items = [] := by
  induction h with
  | nil => rfl
  | gap _ ih => exact ih (by rw [List.length_cons] at ht; omega)
  | member p _ _ =>
    obtain ⟨c, u, hc, -⟩ := p.first
    simp only [hc, List.length_append, List.length_cons] at ht
    omega

/-- **The rows are cut into the members again.** -/
theorem itemsFrom (h : Stacked i items t k) {fuel : Nat} (hfuel : items.length ≤ fuel) {g : Text}
    (hg : ∀ c ∈ g, isGap c = true) (line : Nat) (before : Text) (inside : Bool) :
    ∃ more, Source.itemsFrom fuel line before inside
        ((g ++ ['\n']).zip (g ++ ['\n']) ++ t.zip k) = .ok more ∧
      membersOf more = membersOf items := by
  have hgap : ∀ {g : Text}, (∀ c ∈ g, isGap c = true) → ∀ cell ∈ g.zip g, isGap cell.1 = true :=
    fun hg cell hcell => hg _ (List.of_mem_zip hcell).1
  have hfeed : ∀ {g : Text}, (∀ c ∈ g, isGap c = true) → ∀ c ∈ g ++ ['\n'], isGap c = true := by
    intro g hg c hc
    rcases List.mem_append.mp hc with hc | hc
    · exact hg c hc
    · rw [List.mem_singleton.mp hc]
      decide
  induction h generalizing fuel g line before inside with
  | nil =>
    rw [List.zip_nil_left, List.append_nil, itemsFrom_gap (hgap (hfeed hg))]
    exact ⟨[], rfl, rfl⟩
  | @gap items t k _ ih =>
    rw [List.length_cons] at hfuel
    have hrest : items.length ≤ fuel := by omega
    have := ih hrest (hfeed hg) line before inside
    rw [membersOf_gap]
    rw [List.zip_append rfl] at this
    simpa [List.zip_append] using this
  | @member m items t k p more ih =>
    obtain ⟨fuel, rfl⟩ : ∃ n, fuel = n + 1 := ⟨fuel - 1, by simp at hfuel; omega⟩
    rw [List.length_cons] at hfuel
    obtain ⟨c, u, hc, hcell⟩ := p.first
    obtain ⟨d, v, hd⟩ : ∃ d v, p.shown = d :: v := by
      cases hs : p.shown with
      | nil =>
        have := p.length
        rw [hs, hc] at this
        cases this
      | cons d v => exact ⟨d, v, rfl⟩
    have hfront : ∀ c ∈ g ++ '\n' :: p.front, isGap c = true := by
      intro c hc
      rw [List.append_cons] at hc
      exact (List.mem_append.mp hc).elim (hfeed hg c) (p.gap c)
    have hlast : lastLine (before ++ (g ++ '\n' :: p.front)) = p.front := by
      rw [← List.append_assoc]
      exact lastLine_append p.line
    have hsplit : (g ++ ['\n']).zip (g ++ ['\n']) ++
        (p.front ++ (p.text ++ '\n' :: t)).zip (p.front ++ (p.shown ++ '\n' :: k)) =
        (g ++ '\n' :: p.front).zip (g ++ '\n' :: p.front) ++
          (p.text.zip p.shown ++ ('\n', '\n') :: t.zip k) := by
      rw [zip_parts p.length, List.append_cons g '\n' p.front,
        List.zip_append (rfl : (g ++ ['\n']).length = (g ++ ['\n']).length)]
      simp
    rw [hsplit]
    refine itemsFrom_of_member (hgap hfront) (by rw [hc, hd]; rfl) hcell
      (p.cells _ (by simp)) (fun line => ?_) (fun line before => ?_) line inside
    · rw [rawText_zip rfl, hlast, rawText_zip p.length]
      exact p.reads line
    · have hrest : items.length ≤ fuel := by omega
      exact ih hrest (g := []) (by simp) line before true

end Stacked

/-! ## The whole file -/

/-- The text of a class around the rows of its members. -/
theorem exists_render {f : ClassFile} (hi : IsIndent f.indent)
    (hm : ∀ m ∈ f.members, m.Freestanding) : ∃ items t k, Stacked f.indent items t k ∧
      membersOf items = f.members ∧ f.render = f.opening ++ ('\n' :: t ++ f.closing) := by
  obtain ⟨t, k, h⟩ := exists_stacked hi hm
  have hrows := h.eq_rows
  by_cases hnil : ofLines (f.items.flatMap (·.render f.indent)) = []
  · -- at most one line feed is left of the items, and it is not written
    have hlen : t.length ≤ 1 := by
      rw [← hrows]
      cases hls : f.items.flatMap (·.render f.indent) with
      | nil => exact Nat.zero_le _
      | cons l ls =>
        rw [← hls, ← ofLines_lineFeed (by simp [hls]), hnil]
        exact Nat.le_refl _
    refine ⟨[], [], [], .nil, (h.membersOf_eq_nil hlen).symm, ?_⟩
    simp [ClassFile.render, hnil]
  · have hne : f.items.flatMap (·.render f.indent) ≠ [] := by
      intro hempty
      rw [hempty] at hnil
      exact hnil rfl
    refine ⟨f.items, t, k, h, rfl, ?_⟩
    rw [ClassFile.render]
    simp only [if_neg hnil]
    rw [← hrows, ← ofLines_lineFeed hne]
    simp

theorem parseText_render {f : ClassFile} (hf : f.Framed) (hi : IsIndent f.indent)
    (hm : ∀ m ∈ f.members, m.Freestanding) :
    ∃ g, ClassFile.parseText f.render = .ok g ∧ g.members = f.members ∧
      g.className = f.className ∧ g.opening = f.opening ∧ g.closing = f.closing := by
  obtain ⟨items, t, k, hstacked, hmembers, hrender⟩ := exists_render hi hm
  obtain ⟨m, header, hopening, hheaders, hname, hbrace, hlen⟩ := hf.exists_opening
  obtain ⟨c, hclosing, hblank⟩ := hf.closes
  have hbody : Shows ('\n' :: t) ('\n' :: k) :=
    (Shows.code (t := ['\n']) (by decide)).append hstacked.shows
  have hmask := mask_append hopening (mask_append hbody hclosing)
  rw [← hrender] at hmask
  -- the only header is the one in front of the members
  have hend : ∀ prev : Option Char, prev.any isWord = false →
      hasClassWord prev ('\x7d' :: c) = false := fun prev _ =>
    hasClassWord_of_notMem (fun hmem => by
      rcases List.mem_cons.mp hmem with h | h
      · exact absurd h (by decide)
      · exact absurd (List.all_eq_true.mp hblank _ h) (by decide)) prev
  have hword : hasClassWord (some '\x7b') ('\n' :: k ++ '\x7d' :: c) = false := by
    rw [List.cons_append]
    exact hasClassWord_append_line (s := []) (hasClassWord_of_notMem (by decide) _)
      (hstacked.noWord hend (by decide))
  have hheaders' := classHeaders_append m hword
  rw [hheaders, List.append_cons] at hheaders'
  have hclose : closingBrace? 1 ('\n' :: k ++ '\x7d' :: c) = some ('\n' :: k).length := by
    have := closingBrace?_append (t := ['\n']) (by decide) (by decide) 1 (u := k ++ '\x7d' :: c)
    rw [hstacked.closingBrace?, Option.map_map] at this
    refine this.trans ?_
    simp [closingBrace?]
    omega
  have hsame : ('\n' :: k).length = ('\n' :: t).length := hbody.length
  have hfuel : items.length ≤ (('\n' :: t).zip ('\n' :: k)).length + 1 := by
    have := hstacked.length_le
    rw [List.length_zip, hsame, Nat.min_self, List.length_cons]
    omega
  obtain ⟨more, hmore, hsameMembers⟩ := hstacked.itemsFrom hfuel (g := []) (by simp)
    (ClassFile.lineOf f.render f.opening.length) [] false
  rw [hrender] at hmask hmore ⊢
  exact ⟨_, parseText_of_parts hmask (by simp [hlen]) hsame hheaders' (by omega) hclose hblank hmore,
    hsameMembers.trans hmembers, hname, rfl, rfl⟩

/-- **Reading undoes putting together.** Whatever its members hold, a class that is written behind
an indentation of spaces and tabs is read as a class with exactly these members, in their order. -/
theorem parse_render {f : ClassFile} (hf : f.Framed) (hi : IsIndent f.indent)
    (hm : ∀ m ∈ f.members, m.Freestanding) (path : Option Text) :
    ∃ g, ClassFile.parse f.render path = .ok g ∧ g.members = f.members ∧
      g.className = f.className ∧ g.opening = f.opening ∧ g.closing = f.closing := by
  obtain ⟨g, hg, hmembers, hname, hopening, hclosing⟩ := parseText_render hf hi hm
  exact ⟨{ g with path := path }, by simp only [ClassFile.parse, hg], hmembers, hname, hopening,
    hclosing⟩

/-- A class of which each member makes a brace or a line look like what it is not. -/
def tangled : ClassFile where
  className := "Report"
  opening := "<?php\n// class Draft \x7b\nfinal class Report extends Base\n\x7b"
  items :=
    [.member (.property
      { name := "tags"
        text := "#[OneToMany(targetEntity: 'Tag', mappedBy: \"a;\x7d\")]\n  #[Field]\nprivate $tags = [\n        1, # ]\n    ]; // \x7d"
        attributes := ["OneToMany", "Field"] }),
     .gap, .gap,
     .member (.method
      { name := "query"
        head := "/* \x7b */ public function query(): string\n\x7b"
        body := some "\n    if ($x) \x7b\n        return <<<SQL\n    \x7d '\n\n  SQL;\n    \x7d\n    return '\x7d';\n"
        tail := "\x7d" }),
     .member (.verbatim "const class_ = 1;")]
  closing := "\x7d // class Draft \x7b\n"
  indent := "\t "
  path := none

theorem parse_render_tangled :
    ∃ g, ClassFile.parse tangled.render none = .ok g ∧ g.members = tangled.members ∧
      g.className = tangled.className ∧ g.opening = tangled.opening ∧
      g.closing = tangled.closing :=
  parse_render
    { opens := ⟨"<?php\n                \nfinal class Report extends Base\n\x7b",
        ⟨"Report", 23, 55⟩,
        by decide +kernel, by decide +kernel, by decide, by decide⟩
      closes := ⟨"                 \n", by decide +kernel, by decide⟩ }
    (by simp only [IsIndent]; decide) (by decide +kernel) none

end EntityScaffold.Source
