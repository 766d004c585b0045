import EntityScaffold.Proofs.Rendered.Accessors
import EntityScaffold.Proofs.Source.Freestanding
import EntityScaffold.Proofs.Source.KeptCode

/-!
# Fragments that begin with a signature

A fragment that begins with the signature of a public method declares that method, if it declares a
method at all, whatever stands behind the parenthesis: parameters and types that are no names do not
get in the way of the name.

* `dedent_append`, `memberText_append` — a line that stands flush stays in front.
* `name_of_ofText`, `name_of_methodOf` — the method's name is that of the signature.
* `Accessor.names_of_mapM` — so are those of accessors.
-/

set_option autoImplicit false

namespace EntityScaffold

open Text Source

/-! ## What stays in front -/

section

variable {s : Text}

theorem lines_front (h : '\n' ∉ s) (t : Text) : ∃ l ls, lines (s ++ t) = (s ++ l) :: ls := by
  induction s with
  | nil => exact List.exists_cons_of_ne_nil (splitAt_ne_nil '\n' t)
  | cons c s ih =>
    obtain ⟨hc, hs⟩ := not_or.mp (mt List.mem_cons.mpr h)
    obtain ⟨l, ls, hlines⟩ := ih hs
    refine ⟨l, ls, ?_⟩
    rw [lines] at hlines ⊢
    rw [List.cons_append, splitAt, if_neg (Ne.symm hc), hlines]
    rfl

theorem ofLines_front (l : Text) (ls : List Text) : ∃ u, ofLines ((s ++ l) :: ls) = s ++ u := by
  cases ls with
  | nil => exact ⟨l, rfl⟩
  | cons k ks =>
    rw [ofLines_cons (by simp)]
    exact ⟨_, List.append_assoc _ _ _⟩

/-- **A line that stands flush is not moved**, and what follows it on that line stays there. -/
theorem dedent_append (h : Flush s) (t : Text) : ∃ u, dedent (s ++ t) = s ++ u := by
  obtain ⟨l, ls, hlines⟩ := lines_front h.oneLine t
  obtain ⟨c, w, rfl⟩ := List.exists_cons_of_ne_nil h.content
  have hc : isSpaceTab c = false := by
    rw [← Bool.not_eq_true]
    exact fun htab => Bool.false_ne_true ((h.first c rfl).symm.trans (isBlank_of_isSpaceTab htab))
  have hink : (c :: w ++ l).all isSpaceTab = false := by
    rw [List.cons_append, List.all_cons, hc, Bool.false_and]
  have hemptied : emptied (c :: w ++ l) = c :: w ++ l := by
    rw [emptied, if_neg (by rw [hink]; exact Bool.false_ne_true)]
  have hmargin : margin ((lines (c :: w ++ t)).map emptied) = [] := by
    rw [hlines, List.map_cons, hemptied]
    have hfront : margin ((c :: w ++ l) :: ls.map emptied) <+: c :: w ++ l :=
      margin_prefix List.mem_cons_self hink
    refine List.eq_nil_iff_forall_not_mem.mpr fun d hd => ?_
    obtain ⟨e, m, hm⟩ := List.exists_cons_of_ne_nil (List.ne_nil_of_mem hd)
    have he := isSpaceTab_of_mem_margin (c := e) (hm ▸ List.mem_cons_self)
    rw [hm, List.cons_append, List.cons_prefix_cons] at hfront
    rw [hfront.1, hc] at he
    cases he
  have hsame : ∀ k : Text, withoutMargin [] k = k := fun k => by cases k <;> rfl
  obtain ⟨u, hu⟩ := ofLines_front (s := c :: w) l ((ls.map emptied).map (withoutMargin []))
  refine ⟨u, ?_⟩
  rw [← hu, dedent, hmargin, hlines, List.map_cons, List.map_cons, hemptied, hsame]

theorem dropEndWhile_front {p : Char → Bool} (h : ∀ c ∈ s.getLast?, p c = false) (t : Text) :
    ∃ u, dropEndWhile p (s ++ t) = s ++ u := by
  obtain ⟨v, hsplit, hv⟩ := exists_dropEndWhile p (s ++ t)
  generalize dropEndWhile p (s ++ t) = d at hsplit ⊢
  rcases List.append_eq_append_iff.mp hsplit with ⟨u, hu, -⟩ | ⟨w, hw, hv'⟩
  · exact ⟨u, hu⟩
  · -- what is dropped cannot reach the last character in front
    rcases List.eq_nil_or_concat w with rfl | ⟨w', c, rfl⟩
    · exact ⟨[], by rw [hw, List.append_nil, List.append_nil]⟩
    · have hlast : s.getLast? = some c := by rw [hw]; simp
      have hc := hv c (by rw [hv']; simp)
      rw [h c hlast] at hc
      cases hc

theorem memberText_append (h : Flush s) (t : Text) : ∃ u, memberText [] (s ++ t) = s ++ u := by
  have hfeed : ∀ c, isBlank c = false → (c == '\n') = false := by
    intro c hc
    rw [beq_eq_false_iff_ne]
    rintro rfl
    cases hc
  obtain ⟨u, hdedent⟩ := dedent_append h t
  have hfirst : (s ++ u).dropWhile (· == '\n') = s ++ u := by
    refine dropWhile_of_head fun c hc => hfeed c (h.first c ?_)
    rw [List.head?_append] at hc
    obtain ⟨d, w, rfl⟩ := List.exists_cons_of_ne_nil h.content
    exact hc
  obtain ⟨v, htrim⟩ := dropEndWhile_front (fun c hc => hfeed c (h.last c hc)) u
  obtain ⟨w, hstrip⟩ := dropEndWhile_front h.last v
  refine ⟨w, ?_⟩
  have hbefore : (if isBlankText [] then ([] : Text) else []) = [] := ite_self []
  simp only [memberText, hbefore, List.nil_append]
  rw [hdedent, trimWhile, hfirst, htrim, stripEnd, hstrip]

theorem Source.Shows.front {m t k : Text} (h : Shows s m) (hk : mask (s ++ t) = .ok k) :
    ∃ u, k = m ++ u := by
  obtain ⟨ls, rfl, -, hread⟩ := h
  rw [mask, lexemes, hread] at hk
  cases hmore : lexemesFrom (1 + countChar '\n' s) t with
  | error e =>
    rw [hmore] at hk
    cases hk
  | ok ms =>
    rw [hmore] at hk
    cases hk
    exact ⟨ms.flatMap Lexeme.shown, List.flatMap_append⟩

end

/-! ## Signatures -/

/-- What a public method begins with. -/
def signature (name : Text) : Text := "public " ++ ("function " ++ (name ++ ['(']))

section

variable {n : Text}

theorem signature_eq (n : Text) : signature n = "public function " ++ (n ++ ['(']) := rfl

theorem notMem_signature (h : Plain n) {c : Char} (hc : isAsciiWord c = false) (hparen : c ≠ '(')
    (hwords : c ∉ ("public function " : Text)) : c ∉ signature n := by
  rw [signature_eq, List.mem_append, List.mem_append, List.mem_singleton, not_or, not_or]
  exact ⟨hwords, h.notMem hc, hparen⟩

theorem flush_signature (h : Plain n) : Flush (signature n) := by
  have hlast : (signature n).getLast? = some '(' := by
    rw [signature_eq, ← List.append_assoc, List.getLast?_append]
    rfl
  have hfirst : (signature n).head? = some 'p' := rfl
  refine ⟨fun c hc => ?_, fun c hc => ?_, ?_, List.cons_ne_nil _ _⟩
  · rw [hfirst, Option.mem_some_iff] at hc
    rw [← hc]
    decide
  · rw [hlast, Option.mem_some_iff] at hc
    rw [← hc]
    decide
  · exact notMem_signature h (by decide) (by decide) (by decide)

theorem shows_signature (h : Plain n) : Shows (signature n) (signature n) := by
  have hwords : Shows ("public function " : Text) "public function " := .code (by decide)
  have hname : Shows n n := .code fun c hc => isCode_of_isAsciiWord (h c hc)
  have hparen : Shows ['('] ['('] := .code (by decide)
  exact hwords.append (hname.append hparen)

/-- What the parts of a signature are called when more follows. -/
theorem signature_append (n k : Text) :
    signature n ++ k = "public " ++ ("function " ++ (n ++ '(' :: k)) := by
  have hassoc : ∀ p f : Text, p ++ (f ++ (n ++ ['('])) ++ k = p ++ (f ++ (n ++ '(' :: k)) := by
    intros
    simp only [List.append_assoc, List.singleton_append]
  exact hassoc _ _

/-- A member that begins with a signature goes on behind it. -/
theorem signature_lt_extent (h : Plain n) {k : Text} {e : Extent}
    (he : extent? (signature n ++ k) = some e) : (signature n).length < e.size := by
  have hwords : Level ("public function " : Text) := .of_plain (by decide)
  have hname : Level n := .of_plain fun c hc => by
    have := forall_isAsciiWord (p := fun c => !isOpener c && !isCloser c) (by decide) (h c hc)
    simpa using this
  have hsplit : signature n = ("public function " ++ n) ++ ['('] := (List.append_assoc _ _ _).symm
  have hsemi : ';' ∉ ("public function " ++ n : Text) := by
    rw [List.mem_append, not_or]
    exact ⟨by decide, h.notMem (by decide)⟩
  rw [extent?, hsplit, List.append_assoc, List.singleton_append,
    extentFrom_level (hwords.append hname) (.inl hsemi), Nat.zero_add, extentFrom,
    if_pos (by decide), if_neg (by decide)] at he
  rw [hsplit, List.length_append]
  exact (bounds_of_extentFrom (by simp) he).1

/-- **A text that begins with a signature declares a method of that name**, if any. -/
theorem name_of_ofText (h : Name n) {t : Text} {line : Nat} {m : Method}
    (hm : Member.ofText (signature n ++ t) line = .ok (.method m)) : m.name = n := by
  rw [Member.ofText] at hm
  cases hk : mask (signature n ++ t) with
  | error e =>
    rw [hk] at hm
    cases hm
  | ok k =>
    obtain ⟨u, rfl⟩ := (shows_signature h.plain).front hk
    have hname : methodName? (withoutAttributes (signature n ++ u)).1 = some n := by
      rw [withoutAttributes_append (notMem_signature h.plain (by decide) (by decide) (by decide))]
      exact (congrArg methodName? (signature_append n _)).trans (methodName?_method h _)
    simp only [hk, hname] at hm
    split at hm
    · cases hm
    · cases hm
      rfl
    · cases hm
      rfl

/-- The member that begins cells which begin with a signature begins with it, too. -/
theorem rawText_member (h : Plain n) {cells member : List Cell} {t k : Text}
    (hmember : memberCells? cells = some member) (hraw : rawText cells = signature n ++ t)
    (hshown : shownText cells = signature n ++ k) : ∃ u, rawText member = signature n ++ u := by
  rw [memberCells?] at hmember
  cases he : extent? (shownText cells) with
  | none =>
    have hink : isBlankText (shownText cells) = false := by
      rw [hshown]
      rfl
    rw [he, hink] at hmember
    cases hmember
  | some e =>
    rw [he] at hmember
    obtain ⟨comment, hcomment⟩ : ∃ comment, member = cells.take e.size ++ comment :=
      ⟨_, (Option.some.inj hmember).symm⟩
    rw [hshown] at he
    have hsize := Nat.le_of_lt (signature_lt_extent h he)
    have htake : rawText member = (rawText cells).take e.size ++ rawText comment := by
      rw [hcomment, rawText, List.map_append, List.map_take]
      rfl
    refine ⟨t.take (e.size - (signature n).length) ++ rawText comment, ?_⟩
    rw [htake, hraw, List.take_append, List.take_of_length_le hsize, List.append_assoc]

/-- **A fragment that begins with a signature declares a method of that name**, if any. -/
theorem name_of_parseMember (h : Name n) {t : Text} {m : Method}
    (hm : parseMember (signature n ++ t) = .ok (.method m)) : m.name = n := by
  obtain ⟨k, items, hk, hitems, hmembers⟩ := exists_of_parseMember hm
  have hlength := length_mask hk
  obtain ⟨u, rfl⟩ := (shows_signature h.plain).front hk
  have hcells : (signature n ++ t).zip (signature n ++ u) = ('p', 'p') :: _ := rfl
  have hgap : ∀ cell ∈ ([] : List Cell), isGap cell.1 = true := fun _ h => absurd h List.not_mem_nil
  obtain ⟨member, first, _, _, rest, hmember, hfirst, -, hitems⟩ :=
    exists_of_itemsFrom hgap hcells (by decide) hitems
  rw [hitems] at hmembers
  obtain ⟨w, hw⟩ := rawText_member h.plain hmember (rawText_zip hlength) (shownText_zip hlength)
  obtain ⟨v, hv⟩ := memberText_append (flush_signature h.plain) w
  have hbefore : lastLine ([] ++ rawText []) = [] := rfl
  rw [hbefore, hw, hv, (List.cons.inj hmembers).1] at hfirst
  exact name_of_ofText h hfirst

theorem exists_signature (i n params returns : Text) (statements : List Text) :
    ∃ t, Render.method i n params returns statements = signature n ++ t := by
  have hassoc : ∀ f o c : Text, f ++ n ++ o ++ params ++ c ++ returns =
      f ++ (n ++ o) ++ (params ++ (c ++ returns)) := by
    intros
    simp only [List.append_assoc]
  obtain ⟨t, ht⟩ := ofLines_front (s := signature n) (params ++ ("): " ++ returns))
    (['\x7b'] :: statements.map (i ++ ·) ++ [['\x7d']])
  refine ⟨t, ?_⟩
  rw [← ht, Render.method]
  exact congrArg (fun line => ofLines (line :: _)) (hassoc _ _ _)

/-- **A rendered method is read under its name**, if it is read as a method. -/
theorem name_of_methodOf (h : Name n) {i params returns : Text} {statements : List Text}
    {m : Method} (hm : Edit.methodOf (Render.method i n params returns statements) = .ok m) :
    m.name = n := by
  obtain ⟨t, ht⟩ := exists_signature i n params returns statements
  rw [ht, Edit.methodOf] at hm
  split at hm
  · rename_i k hk
    cases hm
    exact name_of_parseMember h hk
  · cases hm
  · cases hm

/-- The name of an accessor is one if the property or target in it is plain. -/
theorem Accessor.isName {a : Accessor} (h : Plain a.name) : Name a.name where
  start := by cases a <;> rfl
  plain := h

/-- **Accessors are read under their names**, whatever their types. -/
theorem Accessor.names_of_mapM {i : Text} {as : List Accessor} {ms : List Method}
    (h : ∀ a ∈ as, Plain a.name) (hms : (as.map (Accessor.text i)).mapM Edit.methodOf = .ok ms) :
    ms.map Method.name = as.map Accessor.name := by
  induction as generalizing ms with
  | nil =>
    cases hms
    rfl
  | cons a as ih =>
    rw [List.map_cons, List.mapM_cons] at hms
    cases hm : Edit.methodOf (a.text i) with
    | error e =>
      rw [hm] at hms
      cases hms
    | ok m =>
      rw [hm] at hms
      cases hmore : (as.map (Accessor.text i)).mapM Edit.methodOf with
      | error e =>
        rw [hmore] at hms
        cases hms
      | ok more =>
        rw [hmore] at hms
        cases hms
        have hname : m.name = a.name := name_of_methodOf (isName (h a List.mem_cons_self)) hm
        rw [List.map_cons, List.map_cons, hname,
          ih (fun b hb => h b (List.mem_cons_of_mem a hb)) hmore]

end

end EntityScaffold
