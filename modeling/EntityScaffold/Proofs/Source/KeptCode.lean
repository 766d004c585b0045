import EntityScaffold.Proofs.Source.KeptLayout
import EntityScaffold.Source.ClassFile

/-!
# Reading and writing a class file keeps its code

A file is cut into members, every member is moved to the left, all of it is put together again
behind an indentation, and the layout is set.  Under the view `solid` the text written is the text
read.

* `Member.text_of_ofText` — a member keeps its text, also where it is cut around the braces of a
  method's body.
* `itemsFrom_skip` — one step of the cutting of a class body.
* `Cuts` — a class body cut into members, without the fuel and the line numbers of the cutting;
  `Cuts.solid` — by induction on the members, their solid characters are those of the cells.
* `exists_of_parseText` — how a text is read as a class file.
* `solid_render` — putting the members together again.
* `serialize_keeps_code` — the whole way from a text to the text written.
-/

set_option autoImplicit false

namespace EntityScaffold.Source

open Text

/-! ## Members -/

/-- What an extent says about positions: it ends behind what has been read and within the text,
and its block opens before it closes. -/
theorem bounds_of_extentFrom {openers : List Char} {block : Option Nat} {pos : Nat} {m : Text}
    {e : Extent} (hblock : ∀ s, block = some s → s < pos)
    (h : extentFrom openers block pos m = some e) :
    pos < e.size ∧ e.size ≤ pos + m.length ∧
      ∀ o c, e.block = some (o, c) → o < c ∧ c < e.size := by
  induction m generalizing openers block pos with
  | nil => simp [extentFrom] at h
  | cons d m ih =>
    have hstep : ∀ {os b}, (∀ s, b = some s → s < pos + 1) →
        extentFrom os b (pos + 1) m = some e → pos < e.size ∧
          e.size ≤ pos + (d :: m).length ∧ ∀ o c, e.block = some (o, c) → o < c ∧ c < e.size := by
      intro os b hb hm
      obtain ⟨h₁, h₂, h₃⟩ := ih hb hm
      exact ⟨by omega, by simp only [List.length_cons]; omega, h₃⟩
    have hnext : ∀ s, block = some s → s < pos + 1 := fun s hs => Nat.lt_succ_of_lt (hblock s hs)
    have hlen : pos + 1 ≤ pos + (d :: m).length := by simp only [List.length_cons]; omega
    simp only [extentFrom] at h
    split at h
    · refine hstep ?_ h
      intro s hs
      split at hs
      · cases hs; omega
      · exact hnext s hs
    · split at h
      · split at h
        · cases h
        · rename_i o outer
          split at h
          · cases h
          · split at h
            · rename_i start hstart
              cases h
              refine ⟨Nat.lt_succ_self pos, hlen, ?_⟩
              intro a c hac
              simp only [Option.some.injEq, Prod.mk.injEq] at hac
              obtain ⟨rfl, rfl⟩ := hac
              split at hstart
              · exact ⟨hblock _ hstart, Nat.lt_succ_self _⟩
              · cases hstart
            · exact hstep hnext h
      · split at h
        · cases h
          exact ⟨Nat.lt_succ_self pos, hlen, fun _ _ hb => by cases hb⟩
        · exact hstep hnext h

theorem bounds_of_extent? {m : Text} {e : Extent} (h : extent? m = some e) :
    0 < e.size ∧ e.size ≤ m.length ∧ ∀ o c, e.block = some (o, c) → o < c ∧ c < e.size := by
  have := bounds_of_extentFrom (fun s hs => by cases hs) h
  rwa [Nat.zero_add] at this

/-- **A member keeps its text.** -/
theorem Member.text_of_ofText {raw : Text} {line : Nat} {m : Member}
    (h : Member.ofText raw line = .ok m) : m.text = raw := by
  rw [Member.ofText] at h
  split at h
  · cases h
  · rename_i shown _
    simp only at h
    split at h
    · rename_i name _
      split at h
      · cases h
      · cases h; rfl
      · rename_i size opening closing hext
        cases h
        obtain ⟨_, _, hb⟩ := bounds_of_extent? hext
        obtain ⟨hoc, _⟩ := hb opening closing rfl
        -- the head is also the beginning of what stands before the closing brace
        have hhead : raw.take (opening + 1) = (raw.take closing).take (opening + 1) := by
          rw [List.take_take, Nat.min_eq_left (by omega)]
        simp only [Member.text, Method.text]
        rw [hhead, List.take_append_drop, List.take_append_drop]
    · split at h
      · cases h; rfl
      · split at h
        · cases h; rfl
        · cases h

theorem isSpaceTab_of_mem_leading {line : Text} {c : Char} (h : c ∈ leading line) :
    isSpaceTab c = true :=
  List.all_eq_true.mp List.all_takeWhile c h

theorem commonStart_sublist (s t : Text) : ∀ c ∈ commonStart s t, c ∈ s := by
  induction s generalizing t with
  | nil => simp [commonStart]
  | cons d s ih =>
    cases t with
    | nil => simp [commonStart]
    | cons e t =>
      simp only [commonStart]
      split
      · intro c hc
        rcases List.mem_cons.mp hc with rfl | hc
        · exact List.mem_cons_self
        · exact List.mem_cons_of_mem _ (ih t c hc)
      · simp

/-- The margin of a text consists of spaces and tabs. -/
theorem isSpaceTab_of_mem_margin {ls : List Text} {c : Char} (h : c ∈ margin ls) :
    isSpaceTab c = true := by
  have hfold : ∀ (more : List Text) (m : Text), (∀ c ∈ m, isSpaceTab c = true) →
      ∀ c ∈ more.foldl (fun m l => commonStart m (leading l)) m, isSpaceTab c = true := by
    intro more
    induction more with
    | nil => intro m hm; exact hm
    | cons l more ih =>
      intro m hm
      exact ih _ fun c hc => hm c (commonStart_sublist m (leading l) c hc)
  rw [margin] at h
  split at h
  · cases h
  · exact hfold _ _ (fun c hc => isSpaceTab_of_mem_leading hc) c h

theorem solid_emptied (line : Text) : solid (emptied line) = solid line := by
  rw [emptied]
  split
  · rename_i h
    rw [solid_eq_nil fun c hc => isBlank_of_isSpaceTab (List.all_eq_true.mp h c hc)]
    rfl
  · rfl

theorem solid_withoutMargin {m line : Text} (hm : ∀ c ∈ m, isSpaceTab c = true) :
    solid (withoutMargin m line) = solid line := by
  rw [withoutMargin]
  cases h : after? m line with
  | none => rfl
  | some rest =>
    conv => rhs; rw [eq_append_of_after? h, solid_append,
      solid_eq_nil fun c hc => isBlank_of_isSpaceTab (hm c hc)]
    rfl

/-- Moving a text to the left keeps its solid characters. -/
theorem solid_dedent (t : Text) : solid (dedent t) = solid t := by
  simp only [dedent]
  rw [List.map_map]
  refine solid_ofLines_map fun l _ => ?_
  rw [Function.comp_apply, solid_withoutMargin fun c hc => isSpaceTab_of_mem_margin hc,
    solid_emptied]

theorem solid_memberText (before raw : Text) : solid (memberText before raw) = solid raw := by
  simp only [memberText]
  rw [solid_stripEnd, solid_trimWhile_of (fun _ h => isBlank_of_eq_lineFeed h), solid_dedent,
    solid_append]
  split
  · rename_i h
    rw [solid_eq_nil_of_isBlankText h]
    rfl
  · rfl

/-! ## Cutting a class body -/

theorem rawText_append (cells more : List Cell) :
    rawText (cells ++ more) = rawText cells ++ rawText more := List.map_append

/-- **The cells of a member are a beginning of the cells**, not an empty one if the cells begin
with no gap. -/
theorem eq_of_memberCells? {cells member : List Cell} (h : memberCells? cells = some member) :
    cells = member ++ cells.drop member.length := by
  have hprefix : member <+: cells := by
    rw [memberCells?] at h
    split at h
    · rename_i e _
      simp only [Option.some.injEq] at h
      subst h
      split
      · refine ⟨(cells.drop e.size).dropWhile fun cell => cell.1 != '\n', ?_⟩
        rw [List.append_assoc, List.takeWhile_append_dropWhile, List.take_append_drop]
      · rw [List.append_nil]
        exact List.take_prefix _ _
    · split at h
      · simp only [Option.some.injEq] at h
        subst h
        exact List.rdropWhile_prefix (fun cell => isGap cell.1) cells
      · cases h
  obtain ⟨rest, rfl⟩ := hprefix
  rw [List.drop_left]

theorem length_memberCells?_pos {cells member : List Cell} (h : memberCells? cells = some member)
    (hne : cells ≠ []) (hgap : ∀ cell more, cells = cell :: more → isGap cell.1 = false) :
    0 < member.length := by
  obtain ⟨cell, more, rfl⟩ := List.exists_cons_of_ne_nil hne
  rw [memberCells?] at h
  split at h
  · rename_i e he
    simp only [Option.some.injEq] at h
    subst h
    obtain ⟨hpos, _, _⟩ := bounds_of_extent? he
    simp only [List.length_append, List.length_take, List.length_cons]
    omega
  · split at h
    · simp only [Option.some.injEq] at h
      subst h
      -- the first cell is no gap, so it is not dropped at the end
      have hmem : cell ∈ ((cell :: more).reverse.dropWhile fun cell => isGap cell.1) := by
        rw [List.reverse_cons, List.dropWhile_append]
        split
        · simp [hgap cell more rfl]
        · simp
      rw [List.length_reverse]
      exact List.length_pos_of_mem hmem
    · cases h

/-- The members that cells are cut into, one after the other, each behind gaps. -/
inductive Cuts : List Cell → List Member → Prop where
  | done {gap : List Cell} (blank : ∀ cell ∈ gap, isGap cell.1 = true) : Cuts gap []
  | next {gap member rest : List Cell} {before : Text} {line : Nat} {m : Member} {ms : List Member}
      (blank : ∀ cell ∈ gap, isGap cell.1 = true)
      (cut : memberCells? (member ++ rest) = some member)
      (ink : ∃ cell ∈ member, isGap cell.1 = false)
      (text : Member.ofText (memberText before (rawText member)) line = .ok m)
      (more : Cuts rest ms) : Cuts (gap ++ (member ++ rest)) (m :: ms)

/-! ### One step of the cutting -/

/-- Where nothing but a gap is left, there are no items. -/
theorem itemsFrom_gap {gap : List Cell} (hgap : ∀ cell ∈ gap, isGap cell.1 = true)
    (fuel line : Nat) (before : Text) (inside : Bool) :
    itemsFrom fuel line before inside gap = .ok [] := by
  cases fuel with
  | zero => rfl
  | succ fuel =>
    rw [itemsFrom, List.dropWhile_eq_nil_iff.mpr hgap]
    rfl

/-- One step of the cutting of a class body: behind a gap, the first member and what follows it. -/
theorem itemsFrom_skip {gap cells : List Cell} (hgap : ∀ cell ∈ gap, isGap cell.1 = true)
    {cell : Cell} {more : List Cell} (hcells : cells = cell :: more) (hcell : isGap cell.1 = false)
    (fuel line : Nat) (before : Text) (inside : Bool) :
    itemsFrom (fuel + 1) line before inside (gap ++ cells) =
      match memberCells? cells with
      | none => .error (Defect.unterminatedMember.atLine (line + countChar '\n' (rawText gap)))
      | some member =>
        (Member.ofText (memberText (lastLine (before ++ rawText gap)) (rawText member))
            (line + countChar '\n' (rawText gap))).bind fun m =>
          (itemsFrom fuel (line + countChar '\n' (rawText gap) + countChar '\n' (rawText member))
              (lastLine (lastLine (before ++ rawText gap) ++ rawText member)) true
              (cells.drop member.length)).map fun items =>
            (if inside && 2 ≤ countChar '\n' (rawText gap) then [Item.gap] else []) ++
              .member m :: items := by
  subst hcells
  have htake : (gap ++ cell :: more).takeWhile (fun cell => isGap cell.1) = gap := by
    rw [List.takeWhile_append_of_pos hgap, List.takeWhile_cons_of_neg (by simp [hcell]),
      List.append_nil]
  have hdrop : (gap ++ cell :: more).dropWhile (fun cell => isGap cell.1) = cell :: more := by
    rw [List.dropWhile_append_of_pos hgap, List.dropWhile_cons_of_neg (by simp [hcell])]
  rw [itemsFrom]
  simp only [htake, hdrop, List.isEmpty_cons, Bool.false_eq_true, if_false]
  cases memberCells? (cell :: more) with
  | none => rfl
  | some member =>
    simp only
    cases Member.ofText (memberText (lastLine (before ++ rawText gap)) (rawText member))
      (line + countChar '\n' (rawText gap)) with
    | error e => rfl
    | ok m =>
      simp only [bind, Except.bind, pure, Except.pure]
      cases itemsFrom fuel (line + countChar '\n' (rawText gap) + countChar '\n' (rawText member))
        (lastLine (lastLine (before ++ rawText gap) ++ rawText member)) true
        ((cell :: more).drop member.length) <;> rfl

theorem membersOf_step (b : Bool) (m : Member) (items : List Item) :
    membersOf ((if b then [Item.gap] else []) ++ .member m :: items) = m :: membersOf items := by
  cases b <;> rfl

/-- What one step of a cutting that succeeds has found. -/
theorem exists_of_itemsFrom {gap cells : List Cell} (hgap : ∀ cell ∈ gap, isGap cell.1 = true)
    {cell : Cell} {more : List Cell} (hcells : cells = cell :: more) (hcell : isGap cell.1 = false)
    {fuel line : Nat} {before : Text} {inside : Bool} {items : List Item}
    (h : itemsFrom (fuel + 1) line before inside (gap ++ cells) = .ok items) :
    ∃ member m line' before' rest, memberCells? cells = some member ∧
      Member.ofText (memberText (lastLine (before ++ rawText gap)) (rawText member))
        (line + countChar '\n' (rawText gap)) = .ok m ∧
      itemsFrom fuel line' before' true (cells.drop member.length) = .ok rest ∧
      membersOf items = m :: membersOf rest := by
  rw [itemsFrom_skip hgap hcells hcell] at h
  split at h
  · cases h
  · rename_i member hmember
    simp only [Except.bind, Except.map] at h
    split at h
    · cases h
    · rename_i m hm
      split at h
      · cases h
      · rename_i rest hrest
        cases h
        exact ⟨member, m, _, _, rest, hmember, hm, hrest, membersOf_step _ m rest⟩

/-! ### All members -/

/-- **A class body is cut to its end**: with more fuel than cells the cutting does not stop early,
since every member takes at least one cell. -/
theorem cuts_of_itemsFrom {fuel line : Nat} {before : Text} {inside : Bool} {cells : List Cell}
    {items : List Item} (hfuel : cells.length < fuel)
    (h : itemsFrom fuel line before inside cells = .ok items) : Cuts cells (membersOf items) := by
  induction fuel generalizing line before inside cells items with
  | zero => omega
  | succ fuel ih =>
    obtain ⟨gap, rest, rfl, hgap, hhead⟩ := exists_takeWhile (fun cell : Cell => isGap cell.1) cells
    cases hrest : rest with
    | nil =>
      rw [hrest, List.append_nil, itemsFrom_gap hgap] at h
      cases h
      rw [List.append_nil]
      exact .done hgap
    | cons cell more =>
      have hcell : isGap cell.1 = false := hhead cell (by simp [hrest])
      obtain ⟨member, m, _, _, items', hmember, hm, hitems, hmembers⟩ :=
        exists_of_itemsFrom hgap hrest hcell h
      have hpos := length_memberCells?_pos hmember (by simp [hrest]) fun c u hc => by
        rw [hrest] at hc
        exact (List.cons.inj hc).1 ▸ hcell
      obtain ⟨behind, rfl⟩ : ∃ behind, rest = member ++ behind := ⟨_, eq_of_memberCells? hmember⟩
      rw [List.drop_left] at hitems
      have hlen : behind.length < fuel := by
        rw [List.length_append, List.length_append] at hfuel
        omega
      have hink : ∃ cell ∈ member, isGap cell.1 = false := by
        obtain ⟨c, u, rfl⟩ := List.exists_cons_of_length_pos hpos
        exact ⟨c, List.mem_cons_self, hhead c (by simp)⟩
      rw [hmembers, ← hrest]
      exact .next hgap hmember hink hm (ih hlen hitems)

theorem Cuts.solid {cells : List Cell} {ms : List Member} (h : Cuts cells ms) :
    (ms.flatMap fun m => Text.solid m.text) = Text.solid (rawText cells) := by
  have hgap : ∀ {gap : List Cell}, (∀ cell ∈ gap, isGap cell.1 = true) →
      Text.solid (rawText gap) = [] := by
    intro gap hblank
    refine solid_eq_nil fun c hc => ?_
    obtain ⟨cell, hcell, rfl⟩ := List.mem_map.mp hc
    exact isBlank_of_isGap (hblank cell hcell)
  induction h with
  | done hblank => rw [hgap hblank]; rfl
  | next hblank _ _ htext _ ih =>
    rw [List.flatMap_cons, ih, Member.text_of_ofText htext, solid_memberText, rawText_append,
      rawText_append, solid_append, solid_append, hgap hblank]
    rfl

/-! ## The class file -/

/-- The solid characters of items. -/
def solidOf (items : List Item) : Text := (membersOf items).flatMap fun m => solid m.text

/-- The members behind their indentation. -/
theorem solid_render {f : ClassFile} (hindent : ∀ c ∈ f.indent, isSpaceTab c = true) :
    solid f.render = solid f.opening ++ solidOf f.items ++ solid f.closing := by
  have hmember : ∀ m : Member, (m.render f.indent).flatMap solid = solid m.text := by
    intro m
    rw [Member.render, indentLines, ← solid_ofLines]
    refine solid_ofLines_map fun l _ => ?_
    split
    · rename_i hl
      rw [solid_eq_nil_of_isBlankText hl]
      rfl
    · rw [solid_append, solid_eq_nil fun c hc => isBlank_of_isSpaceTab (hindent c hc)]
      rfl
  have hitems : (f.items.flatMap (·.render f.indent)).flatMap solid = solidOf f.items := by
    induction f.items with
    | nil => rfl
    | cons item items ih =>
      rw [List.flatMap_cons, List.flatMap_append, ih]
      cases item with
      | gap => rfl
      | member m =>
        rw [Item.render, hmember]
        rfl
  have hbody : ∀ body : Text, solid (if body = [] then ['\n'] else '\n' :: body ++ ['\n']) =
      solid body := by
    intro body
    split
    · rename_i hnil
      subst hnil
      decide
    · rw [solid_append, show '\n' :: body = ['\n'] ++ body from rfl, solid_append,
        show solid ['\n'] = [] from by decide, List.append_nil]
      rfl
  rw [ClassFile.render]
  rw [solid_append, solid_append, hbody, solid_ofLines, hitems]

theorem solidOf_spaced (ms : List Member) : solidOf (spaced ms) = ms.flatMap fun m => solid m.text := by
  have h : membersOf (spaced ms) = ms := by
    induction ms with
    | nil => rfl
    | cons m ms ih =>
      cases ms with
      | nil => rfl
      | cons n ms =>
        have : membersOf (spaced (m :: n :: ms)) = m :: membersOf (spaced (n :: ms)) := rfl
        rw [this, ih]
  rw [solidOf, h]

theorem isSpaceTab_of_mem_detectIndent {body : Text} {c : Char}
    (h : c ∈ ClassFile.detectIndent body) : isSpaceTab c = true := by
  have hfour : ∀ c ∈ ("    " : Text), isSpaceTab c = true := by decide
  rw [ClassFile.detectIndent] at h
  split at h
  · exact hfour c h
  · split at h
    · exact hfour c h
    · exact isSpaceTab_of_mem_leading h

/-- **How a text is read as a class file**: cut behind the brace that opens its only class and in
front of the brace that closes it, and cut into members in between. -/
theorem exists_of_parseText {t : Text} {f : ClassFile} (h : ClassFile.parseText t = .ok f) :
    ∃ m header size, mask t = .ok m ∧ classHeaders m = [header] ∧
      closingBrace? 1 (m.drop (header.brace + 1)) = some size ∧
      f.opening = t.take (header.brace + 1) ∧ f.closing = t.drop (header.brace + 1 + size) ∧
      Cuts (((t.zip m).drop (header.brace + 1)).take size) f.members ∧
      ∀ c ∈ f.indent, isSpaceTab c = true := by
  rw [ClassFile.parseText] at h
  simp only [bind, Except.bind, pure, Except.pure] at h
  split at h
  · cases h
  · rename_i m hm
    split at h
    · cases h
    · cases h
    · rename_i header hheader
      split at h
      · cases h
      · rename_i size hsize
        split at h
        · cases h
        · split at h
          · cases h
          · rename_i items hitems
            cases h
            exact ⟨m, header, size, hm, hheader, hsize, rfl, rfl,
              cuts_of_itemsFrom (Nat.lt_succ_self _) hitems,
              fun c hc => isSpaceTab_of_mem_detectIndent hc⟩

/-- A text is its opening, the raw text of its body, and its closing. -/
theorem solid_of_parseText {t : Text} {f : ClassFile} (h : ClassFile.parseText t = .ok f) :
    solid f.opening ++ solidOf f.items ++ solid f.closing = solid t ∧
      ∀ c ∈ f.indent, isSpaceTab c = true := by
  obtain ⟨m, header, size, hm, -, -, hopening, hclosing, hcuts, hindent⟩ := exists_of_parseText h
  have hlen := length_mask hm
  refine ⟨?_, hindent⟩
  have hraw : rawText (((t.zip m).drop (header.brace + 1)).take size) =
      (t.drop (header.brace + 1)).take size := by
    rw [rawText, List.map_take, List.map_drop, List.map_fst_zip (by omega)]
  have hbody : solidOf f.items = solid ((t.drop (header.brace + 1)).take size) := by
    rw [← hraw]
    exact hcuts.solid
  rw [hbody, hopening, hclosing, ← solid_append, ← solid_append, List.append_assoc,
    ← List.drop_drop (i := size) (j := header.brace + 1), List.take_append_drop,
    List.take_append_drop]

/-- Putting a class file together keeps the solid characters of the text it was read from. -/
theorem solid_normalized_render {t : Text} {f : ClassFile} (h : ClassFile.parseText t = .ok f) :
    solid f.normalized.render = solid t := by
  obtain ⟨hsolid, hindent⟩ := solid_of_parseText h
  rw [solid_render (f := f.normalized) hindent, ← hsolid]
  simp only [ClassFile.normalized, solidOf_spaced]
  rfl

/-- Reading at a path is reading, and noting the path. -/
theorem parseText_of_parse {t : Text} {path : Option Text} {f : ClassFile}
    (h : ClassFile.parse t path = .ok f) :
    ∃ g, ClassFile.parseText t = .ok g ∧ f = { g with path := path } := by
  unfold ClassFile.parse at h
  cases hg : ClassFile.parseText t with
  | ok g =>
    rw [hg] at h
    cases h
    exact ⟨g, rfl, rfl⟩
  | error e =>
    rw [hg] at h
    cases path <;> cases h

/-- **Nothing is lost, doubled or moved.**  The text written for a class file that was read has
the solid characters of the text it was read from, in their order, behind those of an opening tag
exactly if the text in its layout does not begin with one. -/
theorem serialize_keeps_code {t : Text} {path : Option Text} {f : ClassFile}
    (h : ClassFile.parse t path = .ok f) :
    solid f.serialize =
      (if startsWith openTag (formatted f.normalized.render) then [] else openTag) ++ solid t := by
  obtain ⟨g, hg, rfl⟩ := parseText_of_parse h
  have hrender := solid_normalized_render hg
  rw [ClassFile.serialize, solid_normalizeWhitespace, ← hrender]
  rfl

/-- Hand-written code on one line, with a comment behind a member and no opening tag. -/
theorem serialize_keeps_code_of_one_line :
    ∃ f, ClassFile.parse "class A \x7b public int $a; // \x7d\n  function b() \x7b\x7d \x7d" none = .ok f ∧
      solid f.serialize =
        (if startsWith openTag (formatted f.normalized.render) then [] else openTag) ++
          solid "class A \x7b public int $a; // \x7d\n  function b() \x7b\x7d \x7d" := by
  have hok : (ClassFile.parse "class A \x7b public int $a; // \x7d\n  function b() \x7b\x7d \x7d"
      none).isOk = true := by decide +kernel
  cases h : ClassFile.parse "class A \x7b public int $a; // \x7d\n  function b() \x7b\x7d \x7d" none with
  | error e => rw [h] at hok; cases hok
  | ok f => exact ⟨f, rfl, serialize_keeps_code h⟩

end EntityScaffold.Source
