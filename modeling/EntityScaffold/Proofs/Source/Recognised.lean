import EntityScaffold.Proofs.Source.ReadBack

/-!
# Reading declarations back

What the recognisers find in a member as it is generated: a public method with its name, or a
public property with its type, its name and the attribute in front of it.

* `keyword?_eq_none`, `visibility?_eq_none` — a word that is none of the keywords is not read as
  one.
* `methodName?_method`, `propertyName?_declaration`, `methodName?_declaration`.
* `withoutAttributes_group` — an attribute group is blanked and its attribute is found.
* `ofText_property`, `ofText_method` — the members that are read.
-/

set_option autoImplicit false

namespace EntityScaffold.Source

open Text

/-! ## Keywords -/

/-- A word without blanks. -/
def Solid (w : Text) : Prop := ∀ c ∈ w, isBlank c = false

instance (w : Text) : Decidable (Solid w) := List.decidableBAll _ w

theorem eq_of_solid {w v s t : Text} {b d : Char} (hw : Solid w) (hv : Solid v)
    (hb : isBlank b = true) (hd : isBlank d = true) (h : w ++ b :: s = v ++ d :: t) : w = v := by
  have htake : ∀ {w : Text} {b : Char} {s : Text}, Solid w → isBlank b = true →
      (w ++ b :: s).takeWhile (!isBlank ·) = w := by
    intro w b s hw hb
    rw [List.takeWhile_append_of_pos (by simpa [Solid] using hw)]
    simp [hb]
  rw [← htake (s := s) hw hb, h, htake hv hd]

/-- A word that is none of the keywords is not read as one. -/
theorem keyword?_eq_none {keywords : List Text} {w u : Text} {b : Char}
    (hkeys : ∀ k ∈ keywords, Solid k) (hw : Solid w) (hb : isBlank b = true)
    (hne : w ∉ keywords) : keyword? keywords (w ++ b :: u) = none := by
  rw [keyword?, List.findSome?_eq_none_iff]
  intro k hk
  rw [Option.bind_eq_none_iff]
  intro r hr
  cases hblanks : blanks? r with
  | none => rfl
  | some v =>
    obtain ⟨d, v, rfl, hd⟩ := eq_cons_of_blanks? hblanks
    exact absurd (eq_of_solid hw (hkeys k hk) hb hd (eq_append_of_after? hr) ▸ hk) hne

theorem visibility?_eq_none {keywords : List Text} {w u : Text} {b : Char}
    (hkeys : ∀ k ∈ keywords, Solid k) (hw : Solid w) (hparen : '(' ∉ w) (hb : isBlank b = true)
    (hne : w ∉ keywords) : visibility? keywords (w ++ b :: u) = none := by
  rw [visibility?, List.findSome?_eq_none_iff]
  intro k hk
  rw [Option.bind_eq_none_iff]
  intro r hr
  have heq := eq_append_of_after? hr
  cases hset : after? "(set)" r with
  | none =>
    rw [Option.getD_none]
    cases hblanks : blanks? r with
    | none => rfl
    | some v =>
      obtain ⟨d, v, rfl, hd⟩ := eq_cons_of_blanks? hblanks
      exact absurd (eq_of_solid hw (hkeys k hk) hb hd heq ▸ hk) hne
  | some s =>
    rw [Option.getD_some]
    cases hblanks : blanks? s with
    | none => rfl
    | some v =>
      -- the word would have to end with the restriction
      obtain ⟨d, v, rfl, hd⟩ := eq_cons_of_blanks? hblanks
      rw [eq_append_of_after? hset, ← List.append_assoc] at heq
      have hsolid : Solid (k ++ "(set)") := by
        intro c hc
        have hset : Solid "(set)" := by decide
        rcases List.mem_append.mp hc with hc | hc
        · exact hkeys k hk c hc
        · exact hset c hc
      have hword := eq_of_solid hw hsolid hb hd heq
      exact absurd (hword ▸ List.mem_append_right k (by decide)) hparen

theorem steps_of_none {step : Text → Option Text} {t : Text} (h : step t = none) :
    steps step t = t := by
  rw [steps]
  cases t.length with
  | zero => rfl
  | succ n => rw [stepsWith, h]

theorem steps_of_some {step : Text → Option Text} {t r : Text} (ht : t ≠ []) (h : step t = some r)
    (hr : step r = none) : steps step t = r := by
  obtain ⟨n, hn⟩ : ∃ n, t.length = n + 1 :=
    ⟨t.length - 1, (Nat.sub_add_cancel (List.length_pos_iff.mpr ht)).symm⟩
  rw [steps, hn, stepsWith, h]
  simp only
  cases n with
  | zero => rfl
  | succ n => rw [stepsWith, hr]

theorem solid_keywords : (∀ k ∈ methodModifiers, Solid k) ∧ (∀ k ∈ propertyModifiers, Solid k) := by
  decide

/-! ## Methods and properties -/

/-- A name as it may be declared. -/
structure Name (n : Text) : Prop where
  start : n.head?.any isNameStart = true
  plain : Plain n

theorem Name.solid {n : Text} (h : Name n) : Solid n :=
  fun c hc => isBlank_of_isAsciiWord (h.plain c hc)

theorem Name.read {n u : Text} (h : Name n) (hu : ∀ d ∈ u.head?, isWord d = false) :
    name? (n ++ u) = some (n, u) := by
  obtain ⟨c, w, rfl⟩ : ∃ c w, n = c :: w := by
    cases n with
    | nil => cases h.start
    | cons c w => exact ⟨c, w, rfl⟩
  exact name?_append (by simpa using h.start)
    (fun d hd => isWord_of_isAsciiWord (h.plain d (List.mem_cons_of_mem c hd))) hu

theorem skipBlanks_append {b t : Text} (hb : ∀ c ∈ b, isBlank c = true)
    (ht : ∀ c ∈ t.head?, isBlank c = false) : skipBlanks (b ++ t) = t := by
  rw [skipBlanks, List.dropWhile_append_of_pos hb]
  exact dropWhile_of_head ht

/-- The name of a public method. -/
theorem methodName?_method {n : Text} (h : Name n) (rest : Text) :
    methodName? ("public " ++ ("function " ++ (n ++ '(' :: rest))) = some n := by
  have hskip : skipBlanks ("public " ++ ("function " ++ (n ++ '(' :: rest))) =
      "public " ++ ("function " ++ (n ++ '(' :: rest)) := rfl
  have hpublic : keyword? methodModifiers ("public " ++ ("function " ++ (n ++ '(' :: rest))) =
      some ("function " ++ (n ++ '(' :: rest)) := rfl
  have hfunction : keyword? methodModifiers ("function " ++ (n ++ '(' :: rest)) = none :=
    keyword?_eq_none (w := "function") (b := ' ') solid_keywords.1 (by decide)
      (by decide) (by decide)
  have hafter : after? "function" ("function " ++ (n ++ '(' :: rest)) =
      some (' ' :: (n ++ '(' :: rest)) := rfl
  obtain ⟨c, w, rfl⟩ : ∃ c w, n = c :: w := by
    cases n with
    | nil => cases h.start
    | cons c w => exact ⟨c, w, rfl⟩
  have hc : isBlank c = false := h.solid c (by simp)
  have hblanks : blanks? (' ' :: (c :: w ++ '(' :: rest)) = some (c :: w ++ '(' :: rest) := by
    have hb : isBlank ' ' = true := by decide
    simp [blanks?, hb, hc]
  have hnot : after? "&" (c :: w ++ '(' :: rest) = none := by
    have : '&' ≠ c := (ne_of_isAsciiWord (h.plain c (by simp)) (by decide)).symm
    simp [after?, this]
  have hread := h.read (u := '(' :: rest) (by
    intro d hd
    have : d = '(' := by simpa using hd.symm
    rw [this]
    decide)
  have hself : skipBlanks (c :: w ++ '(' :: rest) = c :: w ++ '(' :: rest :=
    dropWhile_of_head (by simpa using hc)
  have hparen : after? "(" (skipBlanks ('(' :: rest)) = some rest := by
    have : isBlank '(' = false := by decide
    simp [skipBlanks, after?, this]
  rw [methodName?, hskip, steps_of_some (by simp) hpublic hfunction, hafter]
  simp only [Option.bind_eq_bind, Option.bind_some, hblanks, hnot, Option.getD_none, hself, hread,
    hparen]

/-- A word that can be the type of a property. -/
structure TypeWord (t : Text) : Prop where
  solid : Solid t
  content : t ≠ []
  ends : ∀ c ∈ t, c ≠ '$' ∧ c ≠ '=' ∧ c ≠ ';' ∧ c ≠ '('
  free : t ∉ ("function" : Text) :: (methodModifiers ++ propertyModifiers)

section

variable {b t n rest : Text}

/-- A property is not read as a method. -/
theorem methodName?_declaration (hb : ∀ c ∈ b, isBlank c = true) (ht : TypeWord t) :
    methodName? (b ++ ("public " ++ (t ++ ' ' :: rest))) = none := by
  have hfree := ht.free
  simp only [List.mem_cons, List.mem_append, not_or] at hfree
  have hskip : skipBlanks (b ++ ("public " ++ (t ++ ' ' :: rest))) =
      "public " ++ (t ++ ' ' :: rest) :=
    skipBlanks_append hb (by simp; decide)
  obtain ⟨c, w, rfl⟩ := List.exists_cons_of_ne_nil ht.content
  have hc : isBlank c = false := ht.solid c (by simp)
  have hpublic : keyword? methodModifiers ("public " ++ (c :: w ++ ' ' :: rest)) =
      some (c :: w ++ ' ' :: rest) := by
    have hdrop : (c :: w ++ ' ' :: rest).dropWhile isBlank = c :: w ++ ' ' :: rest :=
      dropWhile_of_head (by simpa using hc)
    have : keyword? methodModifiers ("public " ++ (c :: w ++ ' ' :: rest)) =
        some ((c :: w ++ ' ' :: rest).dropWhile isBlank) := rfl
    rw [this, hdrop]
  have hnone := keyword?_eq_none (u := rest) solid_keywords.1 ht.solid (by decide : isBlank ' ' = true)
    hfree.2.1
  have hfunction : (after? "function" (c :: w ++ ' ' :: rest)).bind blanks? = none := by
    have hkeys : ∀ k ∈ [("function" : Text)], Solid k := by decide
    have := keyword?_eq_none (u := rest) hkeys ht.solid (by decide : isBlank ' ' = true)
      (by simpa using hfree.1)
    rwa [keyword?, List.findSome?_singleton] at this
  rw [methodName?, hskip, steps_of_some (by simp) hpublic hnone]
  simp only [Option.bind_eq_bind]
  rw [← Option.bind_assoc, hfunction, Option.bind_none]

/-- The name of a public property. -/
theorem propertyName?_declaration (hb : ∀ c ∈ b, isBlank c = true) (ht : TypeWord t)
    (hn : Name n) (hrest : ∀ d ∈ rest.head?, isWord d = false) :
    propertyName? (b ++ ("public " ++ (t ++ ' ' :: '$' :: (n ++ rest)))) = some n := by
  have hfree := ht.free
  simp only [List.mem_cons, List.mem_append, not_or] at hfree
  have hskip : skipBlanks (b ++ ("public " ++ (t ++ ' ' :: '$' :: (n ++ rest)))) =
      "public " ++ (t ++ ' ' :: '$' :: (n ++ rest)) :=
    skipBlanks_append hb (by simp; decide)
  have hnone := visibility?_eq_none (u := '$' :: (n ++ rest)) solid_keywords.2 ht.solid
    (fun hm => (ht.ends _ hm).2.2.2 rfl) (by decide : isBlank ' ' = true) hfree.2.2
  have hends : ∀ c ∈ t, (!(isBlank c || c == '$' || c == '=' || c == ';')) = true := by
    intro c hc
    obtain ⟨h₁, h₂, h₃, -⟩ := ht.ends c hc
    simp [ht.solid c hc, h₁, h₂, h₃]
  have htype : typeWord? (t ++ ' ' :: '$' :: (n ++ rest)) = some ('$' :: (n ++ rest)) := by
    have hdrop : (t ++ ' ' :: '$' :: (n ++ rest)).dropWhile
        (fun c => !(isBlank c || c == '$' || c == '=' || c == ';')) =
          ' ' :: '$' :: (n ++ rest) := by
      rw [List.dropWhile_append_of_pos hends]
      have hblank : isBlank ' ' = true := by decide
      simp [hblank]
    obtain ⟨c, w, rfl⟩ := List.exists_cons_of_ne_nil ht.content
    have hc := hends c (by simp)
    have hhead : (c :: w ++ ' ' :: '$' :: (n ++ rest)).head?.all
        (fun c => isBlank c || c == '$' || c == '=' || c == ';') = false := by
      simpa using hc
    rw [typeWord?]
    simp only [hhead, Bool.false_eq_true, if_false, hdrop]
    rfl
  have hvariable : variableName? ('$' :: (n ++ rest)) = some n := by
    have hdollar : after? "$" ('$' :: (n ++ rest)) = some (n ++ rest) := rfl
    simp only [variableName?, hdollar, Option.bind_eq_bind, Option.bind_some, hn.read hrest]
  obtain ⟨c, w, rfl⟩ := List.exists_cons_of_ne_nil ht.content
  have hc : isBlank c = false := ht.solid c (by simp)
  have hpublic : visibility? propertyModifiers
      ("public " ++ (c :: w ++ ' ' :: '$' :: (n ++ rest))) =
        some (c :: w ++ ' ' :: '$' :: (n ++ rest)) := by
    have hdrop : (c :: w ++ ' ' :: '$' :: (n ++ rest)).dropWhile isBlank =
        c :: w ++ ' ' :: '$' :: (n ++ rest) := dropWhile_of_head (by simpa using hc)
    have : visibility? propertyModifiers ("public " ++ (c :: w ++ ' ' :: '$' :: (n ++ rest))) =
        some ((c :: w ++ ' ' :: '$' :: (n ++ rest)).dropWhile isBlank) := rfl
    rw [this, hdrop]
  rw [propertyName?, hskip, hpublic]
  simp only [Option.bind_eq_bind, Option.bind_some, steps_of_none hnone, htype, Option.getD_some,
    hvariable]

end

/-! ## Attributes -/

theorem withoutAttributes_append {s : Text} (h : '#' ∉ s) (t : Text) :
    withoutAttributes (s ++ t) = (s ++ (withoutAttributes t).1, (withoutAttributes t).2) := by
  induction s with
  | nil => rfl
  | cons c s ih =>
    simp only [List.mem_cons, not_or] at h
    have hstep : withoutAttributes (c :: (s ++ t)) =
        (c :: (withoutAttributes (s ++ t)).1, (withoutAttributes (s ++ t)).2) := by
      rw [withoutAttributes]
      intro u hc
      exact absurd hc.symm h.1
    rw [List.cons_append, hstep, ih h.2]
    rfl

/-- A group without square brackets inside is blanked, and its attributes are listed. -/
theorem withoutAttributes_group {a : Text} (hopen : '[' ∉ a) (hclose : ']' ∉ a) (t : Text) :
    withoutAttributes ('#' :: '[' :: (a ++ ']' :: t)) =
      (List.replicate (a.length + 3) ' ' ++ (withoutAttributes t).1,
        attributeNames a ++ (withoutAttributes t).2) := by
  rw [withoutAttributes, groupInside_append hopen hclose]

/-- **The name of the only attribute of a group**, in front of its arguments. -/
theorem attributeNames_call {n a : Text} (hn : Name n) (ha : bracketRun [] a = some []) :
    attributeNames (n ++ '(' :: (a ++ [')'])) = [n] := by
  obtain ⟨c, w, rfl⟩ : ∃ c w, n = c :: w := by
    cases n with
    | nil => cases hn.start
    | cons c w => exact ⟨c, w, rfl⟩
  have hplain : ∀ d ∈ c :: w, isOpener d = false ∧ isCloser d = false ∧ d ≠ ',' := fun d hd =>
    ⟨(not_isOpener_of_isAsciiWord (hn.plain d hd)).1,
      (not_isOpener_of_isAsciiWord (hn.plain d hd)).2,
      ne_of_isAsciiWord (hn.plain d hd) (by decide)⟩
  have hargs : groupPieces 1 ('(' :: (c :: w).reverse) (a ++ [')']) =
      groupPieces 1 (a.reverse ++ '(' :: (c :: w).reverse) [')'] :=
    groupPieces_run (d := 1) ha (by decide)
  have hpieces : groupPieces 0 [] (c :: w ++ '(' :: (a ++ [')'])) =
      [c :: w ++ '(' :: (a ++ [')'])] := by
    have hlast : ∀ p : Text, groupPieces 1 p [')'] = [(')' :: p).reverse] := fun p => rfl
    rw [groupPieces_append hplain, List.append_nil]
    change groupPieces 1 ('(' :: (c :: w).reverse) (a ++ [')']) = _
    rw [hargs, hlast]
    simp
  have hc : isBlank c = false := hn.solid c (by simp)
  have hslash : '\\' ≠ c := (ne_of_isAsciiWord (hn.plain c (by simp)) (by decide)).symm
  have hinside : ∀ d ∈ w, (isWord d || d == '\\') = true := fun d hd => by
    simp [isWord_of_isAsciiWord (hn.plain d (List.mem_cons_of_mem c hd))]
  have hparen : isWord '(' = false := by decide
  have htake : (w ++ '(' :: (a ++ [')'])).takeWhile (fun d => isWord d || d == '\\') = w := by
    rw [List.takeWhile_append_of_pos hinside, List.takeWhile_cons_of_neg (by simp [hparen]),
      List.append_nil]
  have hstart : isNameStart c = true := by simpa using hn.start
  have hshort : shortName (c :: w) = c :: w := by
    have hall : ∀ d ∈ (c :: w).reverse, (d != '\\') = true := fun d hd => by
      rw [bne_iff_ne]
      exact ne_of_isAsciiWord (hn.plain d (List.mem_reverse.mp hd)) (by decide)
    have htake : ((c :: w).reverse ++ []).takeWhile (· != '\\') = _ :=
      List.takeWhile_append_of_pos hall
    rw [List.append_nil, List.takeWhile_nil, List.append_nil] at htake
    rw [shortName, htake, List.reverse_reverse]
  have hname : attributeName? (c :: w ++ '(' :: (a ++ [')'])) = some (c :: w) := by
    have hself : skipBlanks (c :: w ++ '(' :: (a ++ [')'])) = c :: w ++ '(' :: (a ++ [')']) :=
      dropWhile_of_head (by simpa using hc)
    have hnone : after? "\\" (c :: w ++ '(' :: (a ++ [')'])) = none := by
      simp [after?, hslash]
    rw [attributeName?]
    simp only [hself, hnone, Option.getD_none]
    rw [List.cons_append, qualifiedName?, if_pos hstart, htake, Option.map_some, hshort]
  rw [attributeNames, hpieces]
  simp only [List.filterMap_cons, hname, List.filterMap_nil]

/-! ## Members -/

/-- A property behind its attribute, as it is read. -/
theorem ofText_property {raw b a t n rest : Text} (hshows : Shows raw
      (b ++ '#' :: '[' :: (a ++ ']' :: '\n' :: ("public " ++ (t ++ ' ' :: '$' :: (n ++ rest))))))
    (hb : ∀ c ∈ b, isBlank c = true) (hopen : '[' ∉ a) (hclose : ']' ∉ a) (ht : TypeWord t)
    (hn : Name n) (hrest : ∀ d ∈ rest.head?, isWord d = false) (hmark : '#' ∉ t ++ rest)
    (line : Nat) :
    Member.ofText raw line = .ok (.property ⟨n, raw, attributeNames a⟩) := by
  have hbmark : '#' ∉ b := fun hm => by
    have := hb _ hm
    revert this
    decide
  simp only [List.mem_append, not_or] at hmark
  have hdecl : '#' ∉ '\n' :: ("public " ++ (t ++ ' ' :: '$' :: (n ++ rest))) := by
    have hpublic : '#' ∉ ("public " : Text) := by decide
    simp only [List.mem_cons, List.mem_append, not_or]
    exact ⟨by decide, hpublic, hmark.1, by decide, by decide, hn.plain.notMem (by decide), hmark.2⟩
  have hbare : withoutAttributes
      (b ++ '#' :: '[' :: (a ++ ']' :: '\n' :: ("public " ++ (t ++ ' ' :: '$' :: (n ++ rest))))) =
      ((b ++ List.replicate (a.length + 3) ' ' ++ ['\n']) ++
        ("public " ++ (t ++ ' ' :: '$' :: (n ++ rest))), attributeNames a) := by
    have hend := withoutAttributes_append hdecl []
    rw [List.append_nil] at hend
    rw [withoutAttributes_append hbmark, withoutAttributes_group hopen hclose, hend]
    simp [withoutAttributes]
  have hblank : ∀ c ∈ b ++ List.replicate (a.length + 3) ' ' ++ ['\n'], isBlank c = true := by
    intro c hc
    rcases List.mem_append.mp hc with hc | hc
    · rcases List.mem_append.mp hc with hc | hc
      · exact hb c hc
      · rw [List.eq_of_mem_replicate hc]
        decide
    · rw [List.mem_singleton.mp hc]
      decide
  rw [Member.ofText, mask_of_shows hshows]
  simp only [hbare, methodName?_declaration hblank ht, propertyName?_declaration hblank ht hn hrest]

/-- A method with a block, as it is read. -/
theorem ofText_method {n params h block : Text} (hn : Name n)
    (hh : h = "public " ++ ("function " ++ (n ++ '(' :: params)))
    (hcode : ∀ c ∈ h ++ block, isCode c = true) (hhead : Level h) (hsemi : ';' ∉ h)
    (hblock : Level block) (line : Nat) :
    Member.ofText (h ++ '\x7b' :: (block ++ ['\x7d'])) line =
      .ok (.method
        { name := n, head := h ++ ['\x7b'], body := some block, tail := ['\x7d'] }) := by
  have hall : ∀ c ∈ h ++ '\x7b' :: (block ++ ['\x7d']), isCode c = true := by
    intro c hc
    simp only [List.mem_append, List.mem_cons, List.not_mem_nil, or_false] at hc
    rcases hc with hc | rfl | hc | rfl
    · exact hcode c (List.mem_append_left _ hc)
    · decide
    · exact hcode c (List.mem_append_right _ hc)
    · decide
  have hmark : '#' ∉ h ++ '\x7b' :: (block ++ ['\x7d']) := fun hm => by
    have := hall _ hm
    revert this
    decide
  have hbare := withoutAttributes_append hmark []
  rw [List.append_nil] at hbare
  have hname : methodName? (h ++ '\x7b' :: (block ++ ['\x7d'])) = some n := by
    have := methodName?_method hn (params ++ '\x7b' :: (block ++ ['\x7d']))
    rw [hh]
    simpa only [List.append_assoc, List.cons_append] using this
  have hextent := extent?_block hhead hsemi hblock []
  have hopen : h ++ '\x7b' :: (block ++ ['\x7d']) = (h ++ ['\x7b']) ++ (block ++ ['\x7d']) := by
    simp
  have hclose : h ++ '\x7b' :: (block ++ ['\x7d']) = (h ++ '\x7b' :: block) ++ ['\x7d'] := by
    simp
  have hlen : (h ++ '\x7b' :: block).length = h.length + block.length + 1 := by
    simp only [List.length_append, List.length_cons]
    omega
  have htake : (h ++ '\x7b' :: (block ++ ['\x7d'])).take (h.length + 1) = h ++ ['\x7b'] := by
    rw [hopen, List.take_left' (by simp)]
  have hbody : ((h ++ '\x7b' :: (block ++ ['\x7d'])).take (h.length + block.length + 1)).drop
      (h.length + 1) = block := by
    rw [hclose, List.take_left' hlen, List.append_cons, List.drop_left' (by simp)]
  have htail : (h ++ '\x7b' :: (block ++ ['\x7d'])).drop (h.length + block.length + 1) =
      ['\x7d'] := by
    rw [hclose, List.drop_left' hlen]
  rw [Member.ofText, mask_of_shows (.code hall)]
  simp only [hbare, withoutAttributes, List.append_nil, hextent, hname, htake, hbody, htail]

end EntityScaffold.Source
