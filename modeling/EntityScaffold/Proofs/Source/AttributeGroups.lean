import EntityScaffold.Proofs.Source.Delimiters
import EntityScaffold.Proofs.Source.Nesting

/-!
# Attribute groups

What attribute groups are and which names they list, said by the grammar of nested texts.  A masked
member is cut into characters and groups; a group lists its attributes with commas between them; and an
attribute is named by the qualified class name that it begins with.  The one pass that counts brackets
blanks exactly the groups and collects exactly these names.

* `Grouped` — the groups of a text, within each of which brackets nest.
* `Listed` — the attributes of a group; `Nested.exists_listed` says that each group has some.
* `NamedBy`, `Names` — the short names of attributes; `attributeName?_eq_some_iff` reads them off.
* `withoutAttributes_exact` — what becomes of a text, and the names in it.
-/

set_option autoImplicit false

namespace EntityScaffold.Source

open Text

/-! ## Groups and what they list -/

/-- A chunk of a masked member. -/
inductive Chunk where
  /-- A character outside of attribute groups. -/
  | code (c : Char)
  /-- An attribute group, with the text between its square brackets. -/
  | group (inside : Text)

/-- The characters of a chunk. -/
def Chunk.text : Chunk → Text
  | .code c => [c]
  | .group inside => '#' :: '[' :: (inside ++ [']'])

/-- The chunk with all characters of a group blanked. -/
def Chunk.blanked : Chunk → Text
  | .code c => [c]
  | .group inside => (Chunk.group inside).text.map fun _ => ' '

/-- The insides of the groups among chunks. -/
def groupsOf (chunks : List Chunk) : List Text :=
  chunks.filterMap fun
    | .code _ => none
    | .group inside => some inside

/-- The text consists of the chunks: a group begins wherever `#[` stands outside of one, and brackets
nest within it. -/
inductive Grouped : Text → List Chunk → Prop where
  | nil : Grouped [] []
  | code {c : Char} {t : Text} {chunks : List Chunk} (hno : ¬ (c = '#' ∧ t.head? = some '['))
      (ht : Grouped t chunks) : Grouped (c :: t) (.code c :: chunks)
  | group {inside t : Text} {chunks : List Chunk} (hinside : Nested inside) (ht : Grouped t chunks) :
      Grouped ('#' :: '[' :: (inside ++ ']' :: t)) (.group inside :: chunks)

/-- The text lists the attributes: a comma stands between neighbours, and all other commas within
brackets. -/
inductive Listed : Text → List Text → Prop where
  | last {a : Text} (ha : Nested a) (hcomma : Sheltered ',' a) : Listed a [a]
  | next {a t : Text} {attributes : List Text} (ha : Nested a) (hcomma : Sheltered ',' a)
      (ht : Listed t attributes) : Listed (a ++ ',' :: t) (a :: attributes)

/-- A qualified name and its last segment.  The first segment is a name; those behind it are any word
characters. -/
inductive Qualified : Text → Text → Prop where
  | name {n : Text} (hn : IsName n) : Qualified n n
  | within {front m n : Text} (hfront : Qualified front m) (hn : ∀ c ∈ n, isWord c = true) :
      Qualified (front ++ ['\\'] ++ n) n

/-- The attribute begins with a class name, of which `n` is the last segment: behind blanks and perhaps
a backslash, and as long as it goes on. -/
inductive NamedBy : Text → Text → Prop where
  | intro {blanks root name n rest : Text} (hblanks : ∀ c ∈ blanks, isBlank c = true)
      (hroot : root = [] ∨ root = ['\\']) (hname : Qualified name n)
      (hrest : ∀ c ∈ rest.head?, isWord c = false ∧ c ≠ '\\') :
      NamedBy (blanks ++ (root ++ (name ++ rest))) n

/-- The names of those attributes that begin with a class name, in order. -/
inductive Names : List Text → List Text → Prop where
  | nil : Names [] []
  | named {a n : Text} {attributes names : List Text} (ha : NamedBy a n)
      (hnames : Names attributes names) : Names (a :: attributes) (n :: names)
  | nameless {a : Text} {attributes names : List Text} (ha : ∀ n, ¬ NamedBy a n)
      (hnames : Names attributes names) : Names (a :: attributes) names

section

variable {s t a n name inside : Text} {c d : Char} {chunks : List Chunk}

/-! ## The name of an attribute -/

/-- The characters of qualified names. -/
def isQualifiedChar (c : Char) : Bool := isWord c || c == '\\'

theorem backslash_notMem_of_words (h : ∀ c ∈ n, isWord c = true) : '\\' ∉ n := fun hm => by
  have := h _ hm
  revert this
  decide +kernel

namespace Qualified

theorem segment (h : Qualified name n) : ∀ c ∈ n, isWord c = true := by
  cases h with
  | name hn => exact hn.isWord
  | within _ hn => exact hn

theorem shortName_eq (h : Qualified name n) : shortName name = n := by
  cases h with
  | name hn => exact shortName_of_notMem (backslash_notMem_of_words hn.isWord)
  | within _ hn => exact shortName_append (backslash_notMem_of_words hn) _

theorem exists_cons (h : Qualified name n) :
    ∃ c w, name = c :: w ∧ isNameStart c = true ∧ ∀ d ∈ w, isQualifiedChar d = true := by
  induction h with
  | name hn =>
    obtain ⟨c, w, rfl, hc, hw⟩ := hn
    exact ⟨c, w, rfl, hc, fun d hd => by simp [isQualifiedChar, hw d hd]⟩
  | @within front m n _ hn ih =>
    obtain ⟨c, w, rfl, hc, hw⟩ := ih
    refine ⟨c, w ++ '\\' :: n, by simp, hc, fun d hd => ?_⟩
    rcases List.mem_append.mp hd with hd | hd
    · exact hw d hd
    rcases List.mem_cons.mp hd with rfl | hd
    · rfl
    · simp [isQualifiedChar, hn d hd]

/-- One more word character belongs to the last segment. -/
theorem concat (h : Qualified name n) (hd : isWord d = true) : Qualified (name ++ [d]) (n ++ [d]) := by
  have hword : ∀ {n : Text}, (∀ c ∈ n, isWord c = true) → ∀ c ∈ n ++ [d], isWord c = true := by
    intro n hn c hc
    rcases List.mem_append.mp hc with hc | hc
    · exact hn c hc
    · rwa [List.mem_singleton.mp hc]
  cases h with
  | name hn =>
    obtain ⟨c, w, rfl, hc, hw⟩ := hn
    exact .name ⟨c, w ++ [d], rfl, hc, hword hw⟩
  | within hfront hn =>
    rw [List.append_assoc]
    exact .within hfront (hword hn)

/-- **Every such run of characters is a qualified name.** -/
theorem exists_of_run {w : Text} (hc : isNameStart c = true) (hw : ∀ d ∈ w, isQualifiedChar d = true) :
    ∃ n, Qualified (c :: w) n := by
  induction w using List.reverseRecOn with
  | nil => exact ⟨[c], .name ⟨c, [], rfl, hc, by simp⟩⟩
  | append_singleton w d ih =>
    obtain ⟨n, hn⟩ := ih fun e he => hw e (List.mem_append_left _ he)
    rw [← List.cons_append]
    cases hd : isWord d with
    | true => exact ⟨n ++ [d], hn.concat hd⟩
    | false =>
      have hslash : isQualifiedChar d = true := hw d (by simp)
      obtain rfl : d = '\\' := by simpa [isQualifiedChar, hd] using hslash
      have hend : c :: w ++ ['\\'] = c :: w ++ ['\\'] ++ [] := (List.append_nil _).symm
      rw [hend]
      exact ⟨[], .within hn (by simp)⟩

end Qualified

theorem qualifiedName?_cons (c : Char) (t : Text) : qualifiedName? (c :: t) =
    if isNameStart c then some (c :: t.takeWhile isQualifiedChar, t.dropWhile isQualifiedChar)
    else none := rfl

theorem qualifiedName?_eq_some_iff {rest : Text} : qualifiedName? t = some (name, rest) ↔
    (∃ n, Qualified name n) ∧ t = name ++ rest ∧ ∀ c ∈ rest.head?, isQualifiedChar c = false := by
  constructor
  · intro h
    cases t with
    | nil => cases h
    | cons c t =>
      rw [qualifiedName?_cons] at h
      split at h
      · rename_i hc
        simp only [Option.some.injEq, Prod.mk.injEq] at h
        obtain ⟨rfl, rfl⟩ := h
        refine ⟨Qualified.exists_of_run hc fun d hd => ?_, by simp, fun d hd => ?_⟩
        · exact List.mem_takeWhile_imp hd
        · exact head?_dropWhile isQualifiedChar t d hd
      · cases h
  · rintro ⟨⟨n, hname⟩, rfl, hrest⟩
    obtain ⟨c, w, rfl, hc, hw⟩ := hname.exists_cons
    rw [List.cons_append, qualifiedName?_cons, if_pos hc, takeWhile_append_of_head hw hrest,
      List.dropWhile_append_of_pos hw, dropWhile_of_head hrest]

theorem isQualifiedChar_eq_false_iff : isQualifiedChar c = false ↔ isWord c = false ∧ c ≠ '\\' := by
  simp [isQualifiedChar]

theorem isBlank_of_isNameStart (h : isNameStart c = true) : isBlank c = false :=
  isBlank_of_isAsciiWord (isAsciiWord_of_isNameStart h)

/-- **The name of an attribute is read off its beginning.** -/
theorem attributeName?_eq_some_iff : attributeName? a = some n ↔ NamedBy a n := by
  constructor
  · intro h
    simp only [attributeName?, Option.map_eq_some_iff, Prod.exists] at h
    obtain ⟨name, rest, hread, rfl⟩ := h
    obtain ⟨⟨n, hname⟩, htext, hrest⟩ := qualifiedName?_eq_some_iff.mp hread
    rw [hname.shortName_eq]
    have hblanks : ∀ c ∈ a.takeWhile isBlank, isBlank c = true := fun c hc =>
      List.all_eq_true.mp List.all_takeWhile c hc
    have hsplit : a.takeWhile isBlank ++ skipBlanks a = a := List.takeWhile_append_dropWhile
    rw [← hsplit]
    cases hroot : after? "\\" (skipBlanks a) with
    | none =>
      rw [hroot, Option.getD_none] at htext
      rw [htext]
      exact .intro hblanks (.inl rfl) hname fun c hc => isQualifiedChar_eq_false_iff.mp (hrest c hc)
    | some behind =>
      rw [hroot, Option.getD_some] at htext
      rw [eq_append_of_after? hroot, htext]
      exact .intro hblanks (.inr rfl) hname fun c hc => isQualifiedChar_eq_false_iff.mp (hrest c hc)
  · rintro ⟨hblanks, hroot, hname, hrest⟩
    rename_i blanks root name rest
    have hread : qualifiedName? (name ++ rest) = some (name, rest) :=
      qualifiedName?_eq_some_iff.mpr ⟨⟨n, hname⟩, rfl, fun c hc =>
        isQualifiedChar_eq_false_iff.mpr (hrest c hc)⟩
    obtain ⟨c, w, rfl, hc, -⟩ := hname.exists_cons
    have hskip : skipBlanks (blanks ++ (root ++ (c :: w ++ rest))) = root ++ (c :: w ++ rest) := by
      rw [skipBlanks, List.dropWhile_append_of_pos hblanks]
      refine dropWhile_of_head fun d hd => ?_
      rcases hroot with rfl | rfl
      · obtain rfl : c = d := by simpa using hd
        exact isBlank_of_isNameStart hc
      · obtain rfl : '\\' = d := by simpa using hd
        decide
    have hroot : (after? "\\" (root ++ (c :: w ++ rest))).getD (root ++ (c :: w ++ rest)) =
        c :: w ++ rest := by
      rcases hroot with rfl | rfl
      · have hslash : '\\' ≠ c := by
          rintro rfl
          cases hc
        have hnone : after? "\\" (c :: w ++ rest) = none := if_neg hslash
        rw [List.nil_append, hnone, Option.getD_none]
      · exact congrArg (Option.getD · _) (after?_append "\\" (c :: w ++ rest))
    rw [attributeName?, hskip, hroot, hread]
    exact congrArg some hname.shortName_eq

theorem names_iff {attributes names : List Text} :
    Names attributes names ↔ names = attributes.filterMap attributeName? := by
  constructor
  · intro h
    induction h with
    | nil => rfl
    | named ha _ ih => rw [List.filterMap_cons, attributeName?_eq_some_iff.mpr ha, ih]
    | @nameless a _ _ ha _ ih =>
      have hnone : attributeName? a = none :=
        Option.eq_none_iff_forall_ne_some.mpr fun n hn => ha n (attributeName?_eq_some_iff.mp hn)
      rw [List.filterMap_cons, hnone, ih]
  · rintro rfl
    induction attributes with
    | nil => exact .nil
    | cons a attributes ih =>
      rw [List.filterMap_cons]
      cases ha : attributeName? a with
      | some n => exact .named (attributeName?_eq_some_iff.mp ha) ih
      | none =>
        refine .nameless (fun n hn => ?_) ih
        rw [attributeName?_eq_some_iff.mpr hn] at ha
        cases ha

/-! ## The attributes of a group -/

/-- **Every nested text lists attributes.** -/
theorem Nested.exists_listed (h : Nested t) : ∃ attributes, Listed t attributes := by
  -- what follows the first comma outside of brackets is nested and shorter
  induction hn : t.length using Nat.strong_induction_on generalizing t with
  | _ k ih =>
    obtain hcomma | ⟨a, b, rfl, ha, hcomma⟩ := sheltered_or_exists_first ',' t
    · exact ⟨[t], .last h hcomma⟩
    · have hb : Nested b := (h.of_append ha).of_append (.single (by decide) (by decide) : Nested [','])
      obtain ⟨attributes, hlisted⟩ := ih b.length (by simp at hn; omega) hb rfl
      exact ⟨a :: attributes, .next ha hcomma hlisted⟩

theorem groupPieces_cons (hc : c ≠ ',') (depth : Int) (p t : Text) :
    groupPieces depth p (c :: t) =
      groupPieces (if isOpener c then depth + 1 else if isCloser c then depth - 1 else depth)
        (c :: p) t := by
  rw [groupPieces]
  simp [hc]

/-- Within an attribute no comma is taken for its end. -/
theorem groupPieces_sheltered (hs : Nested s) (hcomma : Sheltered ',' s) (p t : Text) :
    groupPieces 0 p (s ++ t) = groupPieces 0 (s.reverse ++ p) t := by
  induction hs generalizing p with
  | nil => rfl
  | @plain c s ho hc _ ih =>
    have hne : c ≠ ',' := by
      rintro rfl
      exact hcomma [] s rfl .nil
    have hrest : Sheltered ',' s := hcomma.of_append (s := [c]) (.single ho hc)
    rw [List.cons_append, groupPieces_cons hne, ho, hc, if_neg Bool.false_ne_true,
      if_neg Bool.false_ne_true, ih hrest, List.reverse_cons, List.append_assoc]
    rfl
  | @pair o c s u hpair hs _ _ ih =>
    obtain ⟨ho, hc, hc'⟩ := brackets_of_closerOf? hpair
    have hne : o ≠ ',' ∧ c ≠ ',' := by
      constructor <;> rintro rfl
      · cases ho
      · cases hc'
    have hrest : Sheltered ',' u := by
      refine Sheltered.of_append (s := o :: (s ++ [c])) ?_ (.pair hpair hs .nil)
      simpa using hcomma
    -- the brackets around `s` put all of it one level deeper
    have hinner : groupPieces 1 (o :: p) (s ++ (c :: (u ++ t))) =
        groupPieces 1 (s.reverse ++ o :: p) (c :: (u ++ t)) :=
      groupPieces_run (d := 1) (bracketRun_of_nested hs []) Nat.one_pos
    calc groupPieces 0 p (o :: (s ++ c :: u) ++ t)
        = groupPieces 1 (o :: p) (s ++ (c :: (u ++ t))) := by
          rw [List.cons_append, groupPieces_cons hne.1, if_pos ho, List.append_assoc]
          rfl
      _ = groupPieces 0 (c :: (s.reverse ++ o :: p)) (u ++ t) := by
          rw [hinner, groupPieces_cons hne.2, hc, if_neg Bool.false_ne_true, if_pos hc']
          rfl
      _ = groupPieces 0 ((o :: (s ++ c :: u)).reverse ++ p) t := by
          rw [ih hrest]
          simp

/-- **The pieces of a group are its attributes.** -/
theorem Listed.groupPieces_eq {attributes : List Text} (h : Listed t attributes) :
    groupPieces 0 [] t = attributes := by
  induction h with
  | @last a ha hcomma =>
    have := groupPieces_sheltered ha hcomma [] []
    rw [List.append_nil, List.append_nil] at this
    rw [this]
    simp [groupPieces]
  | @next a t attributes ha hcomma _ ih =>
    rw [groupPieces_sheltered ha hcomma, List.append_nil, groupPieces]
    simp [isOpener, isCloser, ih]

/-! ## The end of a group -/

theorem groupInside_cons {depth : Nat} (h : ¬ (c = ']' ∧ depth ≤ 1)) (t : Text) :
    groupInside depth (c :: t) =
      (c :: (groupInside (if c = '[' then depth + 1 else if c = ']' then depth - 1 else depth) t).1,
        (groupInside (if c = '[' then depth + 1 else if c = ']' then depth - 1 else depth) t).2) := by
  rw [groupInside, if_neg (by simpa using h)]

/-- A group does not end within a nested text. -/
theorem groupInside_nested (hs : Nested s) {depth : Nat} (hdepth : 0 < depth) (t : Text) :
    groupInside depth (s ++ t) = (s ++ (groupInside depth t).1, (groupInside depth t).2) := by
  induction hs generalizing depth t with
  | nil => rfl
  | @plain c s ho hc _ ih =>
    have hopen : c ≠ '[' := by
      rintro rfl
      cases ho
    have hclose : c ≠ ']' := by
      rintro rfl
      cases hc
    rw [List.cons_append, groupInside_cons (fun h => hclose h.1), if_neg hopen, if_neg hclose,
      ih hdepth]
    rfl
  | @pair o c s u hpair _ _ ihs ihu =>
    obtain ⟨ho, hc, hc'⟩ := brackets_of_closerOf? hpair
    have hclose : o ≠ ']' := by
      rintro rfl
      cases ho
    have hopen : c ≠ '[' := by
      rintro rfl
      cases hc
    have hkind : c = ']' ↔ o = '[' := closes_iff hpair rfl
    rw [List.cons_append, List.append_assoc, groupInside_cons (fun h => hclose h.1), if_neg hclose]
    by_cases hsquare : o = '['
    · -- the bracket that closes this one is met one level deeper
      have hdeep : ¬ (c = ']' ∧ depth + 1 ≤ 1) := by omega
      rw [if_pos hsquare, ihs (Nat.succ_pos depth), List.cons_append, groupInside_cons hdeep,
        if_neg hopen, if_pos (hkind.mpr hsquare), Nat.add_sub_cancel, ihu hdepth]
      simp
    · have hother : c ≠ ']' := fun h => hsquare (hkind.mp h)
      rw [if_neg hsquare, ihs hdepth, List.cons_append, groupInside_cons (fun h => hother h.1),
        if_neg hopen, if_neg hother, ihu hdepth]
      simp

/-- **A group ends with the bracket that closes it.** -/
theorem groupInside_group (h : Nested inside) (t : Text) :
    groupInside 1 (inside ++ ']' :: t) = (inside, t) := by
  rw [groupInside_nested h Nat.one_pos]
  simp [groupInside]

/-! ## The whole text -/

theorem Chunk.length_blanked (chunk : Chunk) : chunk.blanked.length = chunk.text.length := by
  cases chunk <;> simp [Chunk.blanked, Chunk.text]

theorem withoutAttributes_code (hno : ¬ (c = '#' ∧ t.head? = some '[')) :
    withoutAttributes (c :: t) = (c :: (withoutAttributes t).1, (withoutAttributes t).2) := by
  rw [withoutAttributes]
  rintro u rfl rfl
  exact hno ⟨rfl, rfl⟩

theorem withoutAttributes_nested (h : Nested inside) (t : Text) :
    withoutAttributes ('#' :: '[' :: (inside ++ ']' :: t)) =
      ((Chunk.group inside).blanked ++ (withoutAttributes t).1,
        attributeNames inside ++ (withoutAttributes t).2) := by
  have hlen : (Chunk.group inside).text.length = inside.length + 3 := by simp [Chunk.text]
  rw [withoutAttributes, groupInside_group h, Chunk.blanked, List.map_const', hlen]

namespace Grouped

/-- No group begins in a text without a number sign. -/
theorem codes (hs : '#' ∉ s) (ht : Grouped t chunks) : Grouped (s ++ t) (s.map .code ++ chunks) := by
  induction s with
  | nil => exact ht
  | cons c s ih =>
    simp only [List.mem_cons, not_or] at hs
    exact .code (fun h => hs.1 h.1.symm) (ih hs.2)

/-- The chunks put together are the text. -/
theorem text_eq (h : Grouped t chunks) : t = chunks.flatMap Chunk.text := by
  induction h with
  | nil => rfl
  | code _ _ ih => rw [List.flatMap_cons, ← ih]; rfl
  | group _ _ ih =>
    rw [List.flatMap_cons, ← ih]
    simp [Chunk.text]

theorem withoutAttributes_eq (h : Grouped t chunks) : withoutAttributes t =
    (chunks.flatMap Chunk.blanked, (groupsOf chunks).flatMap attributeNames) := by
  induction h with
  | nil => simp [withoutAttributes, groupsOf]
  | code hno _ ih =>
    rw [withoutAttributes_code hno, ih]
    rfl
  | group hinside _ ih =>
    rw [withoutAttributes_nested hinside, ih]
    rfl

theorem exists_listed (h : Grouped t chunks) :
    ∃ attributes, List.Forall₂ Listed (groupsOf chunks) attributes := by
  induction h with
  | nil => exact ⟨[], .nil⟩
  | code _ _ ih => exact ih
  | group hinside _ ih =>
    obtain ⟨attributes, hlisted⟩ := ih
    obtain ⟨own, hown⟩ := hinside.exists_listed
    exact ⟨own :: attributes, .cons hown hlisted⟩

end Grouped

theorem flatMap_attributeNames {groups : List Text} {attributes : List (List Text)}
    (h : List.Forall₂ Listed groups attributes) :
    groups.flatMap attributeNames = attributes.flatten.filterMap attributeName? := by
  induction h with
  | nil => rfl
  | cons hlisted _ ih =>
    rw [List.flatMap_cons, List.flatten_cons, List.filterMap_append, ih, attributeNames,
      hlisted.groupPieces_eq]

/-- **Exactly the attribute groups are blanked, and exactly their attributes are named.**  Where brackets
nest within each group of a text, it becomes a text of the same length and the same characters, but for
those of its groups, which are blank.  The names belong to the attributes that the groups list, whatever
stands in their arguments: in order, the last segment of the class name that an attribute begins with, and
nothing for one that begins with none. -/
theorem withoutAttributes_exact (h : Grouped t chunks) :
    t = chunks.flatMap Chunk.text ∧ (withoutAttributes t).1 = chunks.flatMap Chunk.blanked ∧
      (withoutAttributes t).1.length = t.length ∧
      ∀ names, (withoutAttributes t).2 = names ↔ ∃ attributes,
        List.Forall₂ Listed (groupsOf chunks) attributes ∧ Names attributes.flatten names := by
  rw [h.withoutAttributes_eq]
  refine ⟨h.text_eq, rfl, ?_, fun names => ⟨?_, ?_⟩⟩
  · conv => rhs; rw [h.text_eq]
    simp [List.length_flatMap, Chunk.length_blanked]
  · rintro rfl
    obtain ⟨attributes, hlisted⟩ := h.exists_listed
    exact ⟨attributes, hlisted, names_iff.mpr (flatMap_attributeNames hlisted)⟩
  · rintro ⟨attributes, hlisted, hnames⟩
    rw [names_iff.mp hnames]
    exact flatMap_attributeNames hlisted

/-- Two groups with calls, arrays and commas in the arguments, and a comma behind the last attribute. -/
theorem withoutAttributes_exact_of_arguments :
    let first : Text := "A(f(1, [2, 3])), \\N\\B,"
    let second : Text := "C(fn() => \x7b[], 1\x7d)"
    let t : Text := "#[" ++ first ++ "] final #[" ++ second ++ "] $x;"
    let chunks : List Chunk := .group first :: (" final ".toList.map .code ++
      (.group second :: " $x;".toList.map .code))
    Grouped t chunks ∧ (withoutAttributes t).2 = ["A".toList, "B".toList, "C".toList] ∧
      t = chunks.flatMap Chunk.text ∧ (withoutAttributes t).1 = chunks.flatMap Chunk.blanked ∧
        (withoutAttributes t).1.length = t.length ∧
        ∀ names, (withoutAttributes t).2 = names ↔ ∃ attributes,
          List.Forall₂ Listed (groupsOf chunks) attributes ∧ Names attributes.flatten names := by
  intro first second t chunks
  have hfirst : Nested first := nested_iff_bracketRun.mpr (by decide)
  have hsecond : Nested second := nested_iff_bracketRun.mpr (by decide)
  have hend : Grouped " $x;" (" $x;".toList.map .code) := by
    simpa using Grouped.nil.codes (s := " $x;") (by decide)
  have h : Grouped t chunks :=
    .group hfirst (.codes (s := " final ") (by decide) (.group hsecond hend))
  exact ⟨h, by decide +kernel, withoutAttributes_exact h⟩

end

end EntityScaffold.Source
