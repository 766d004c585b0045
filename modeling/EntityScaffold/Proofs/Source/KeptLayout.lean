import EntityScaffold.Proofs.Text.Relaid
import EntityScaffold.Source.Layout

/-!
# The file layout keeps the code

`normalizeWhitespace` replaces places of a text in six passes.  None of them touches a character
that is not white space: under the view `solid` the text with its layout is the text itself, with
the opening tag in front where there was none.

* `replaceAll_related` — a pass whose rule keeps something of every place that it replaces keeps it
  of the whole text.
* `looseStrictTypes?_eq_some_iff` — what is read as a declaration of strict types.
* `separateStrictTypes_relays`, `separateImport_relays`, `collapseLineFeeds_relays`,
  `relaid_separateOpenTag` — all passes but one change nothing but blanks around line feeds.
* `solid_formatted`, `solid_normalizeWhitespace` — the six passes, and the opening tag.
-/

set_option autoImplicit false

namespace EntityScaffold.Source

open Text

/-! ## White space -/

theorem isBlank_of_eq_lineFeed {c : Char} (h : (c == '\n') = true) : isBlank c = true := by
  rw [beq_iff_eq] at h
  subst h
  decide

theorem solid_eq_nil {t : Text} (h : ∀ c ∈ t, isBlank c = true) : solid t = [] := by
  rw [solid, List.filter_eq_nil_iff]
  intro c hc
  simp [h c hc]

theorem solid_eq_nil_of_isBlankText {t : Text} (h : isBlankText t = true) : solid t = [] :=
  solid_eq_nil (List.all_eq_true.mp h)

/-- Laying a text out anew keeps its solid characters. -/
theorem solid_of_relaid {s t : Text} (h : Relaid s t) : solid s = solid t := by
  induction h with
  | nil => rfl
  | char c _ ih =>
    simp only [solid] at ih ⊢
    rw [List.filter_cons, List.filter_cons, ih]
  | feed old new _ indent indent' _ ih =>
    have hfeed : ∀ {g x : Text} (u : Text), IsBreak g → (∀ c ∈ x, isSpaceTab c = true) →
        solid (g ++ (x ++ u)) = solid u := by
      intro g x u hg hx
      rw [solid_append, solid_append, solid_eq_nil hg.blank,
        solid_eq_nil fun c hc => isBlank_of_isSpaceTab (hx c hc)]
      rfl
    rw [hfeed _ old indent, hfeed _ new indent', ih]

/-- Dropping blank characters at the beginning keeps the solid ones. -/
theorem solid_dropWhile_of {p : Char → Bool} (hp : ∀ c, p c = true → isBlank c = true) (t : Text) :
    solid (t.dropWhile p) = solid t := by
  have h : solid (t.takeWhile p) = [] :=
    solid_eq_nil fun c hc => hp c (List.all_eq_true.mp List.all_takeWhile c hc)
  conv => rhs; rw [← List.takeWhile_append_dropWhile (p := p) (l := t), solid_append, h]
  rfl

/-- Dropping blank characters at the end keeps the solid ones. -/
theorem solid_dropEndWhile_of {p : Char → Bool} (hp : ∀ c, p c = true → isBlank c = true)
    (t : Text) : solid (dropEndWhile p t) = solid t := by
  rw [dropEndWhile, solid_reverse, solid_dropWhile_of hp, solid_reverse, List.reverse_reverse]

theorem solid_trimWhile_of {p : Char → Bool} (hp : ∀ c, p c = true → isBlank c = true) (t : Text) :
    solid (trimWhile p t) = solid t := by
  rw [trimWhile, solid_dropEndWhile_of hp, solid_dropWhile_of hp]

/-- Line feeds between pieces are not solid. -/
theorem solid_ofLines (ls : List Text) : solid (ofLines ls) = ls.flatMap solid := by
  induction ls with
  | nil => rfl
  | cons l ls ih =>
    cases ls with
    | nil => simp [ofLines, joinWith]
    | cons m ls =>
      have h : ofLines (l :: m :: ls) = l ++ ['\n'] ++ ofLines (m :: ls) := rfl
      rw [h, solid_append, solid_append, ih, show solid ['\n'] = [] from by decide, List.append_nil]
      rfl

/-- A change of every line that keeps its solid characters keeps those of the text. -/
theorem solid_ofLines_map {f : Text → Text} {t : Text}
    (hf : ∀ l ∈ lines t, solid (f l) = solid l) :
    solid (ofLines ((lines t).map f)) = solid t := by
  conv => rhs; rw [← ofLines_lines t, solid_ofLines]
  rw [solid_ofLines, List.flatMap_map, List.flatMap_def, List.flatMap_def, List.map_congr_left hf]

/-! ## The six passes -/

/-- **A pass relates a text to what it makes of it** as its rule relates the places that it
replaces, by any relation that texts put together are in if their parts are. -/
theorem replaceFrom_related {R : Text → Text → Prop} (hrefl : ∀ t, R t t)
    (happend : ∀ {s s' t t' : Text}, R s s' → R t t' → R (s ++ t) (s' ++ t')) {rule : Replacement}
    (prev : Option Char) (skip : Nat) (t : Text)
    (hrule : ∀ prev s new rest, s <:+ t → rule prev s = some (new, rest) →
      ∃ old, s = old ++ rest ∧ old ≠ [] ∧ R old new) :
    R (t.drop skip) (replaceFrom rule prev skip t) := by
  induction t generalizing prev skip with
  | nil => simpa [replaceFrom] using hrefl []
  | cons c t ih =>
    have ih := fun prev skip => ih prev skip fun p s new rest hs =>
      hrule p s new rest (hs.trans (List.suffix_cons c t))
    cases skip with
    | succ skip =>
      simp only [replaceFrom, List.drop_succ_cons]
      exact ih (some c) skip
    | zero =>
      simp only [replaceFrom, List.drop_zero]
      cases h : rule prev (c :: t) with
      | none => exact happend (hrefl [c]) (ih (some c) 0)
      | some found =>
        obtain ⟨new, rest⟩ := found
        obtain ⟨old, hold, hne, hrelated⟩ := hrule prev (c :: t) new rest List.suffix_rfl h
        obtain ⟨d, old, rfl⟩ := List.exists_cons_of_ne_nil hne
        rw [List.cons_append, List.cons.injEq] at hold
        obtain ⟨rfl, rfl⟩ := hold
        have hdrop : (old ++ rest).drop ((old ++ rest).length - rest.length) = rest := by
          rw [List.length_append, Nat.add_sub_cancel, List.drop_left]
        have hrest := ih (some c) ((old ++ rest).length - rest.length)
        rw [hdrop] at hrest
        exact happend hrelated hrest

theorem replaceAll_related {R : Text → Text → Prop} (hrefl : ∀ t, R t t)
    (happend : ∀ {s s' t t' : Text}, R s s' → R t t' → R (s ++ t) (s' ++ t')) {rule : Replacement}
    (t : Text) (hrule : ∀ prev s new rest, s <:+ t → rule prev s = some (new, rest) →
      ∃ old, s = old ++ rest ∧ old ≠ [] ∧ R old new) : R t (replaceAll rule t) :=
  replaceFrom_related hrefl happend none 0 t hrule

theorem solid_replaceAll {rule : Replacement}
    (hrule : ∀ prev t new rest, rule prev t = some (new, rest) →
      ∃ old, t = old ++ rest ∧ old ≠ [] ∧ solid old = solid new) (t : Text) :
    solid (replaceAll rule t) = solid t := by
  refine (replaceAll_related (R := fun s t => solid s = solid t) (fun _ => rfl) ?_ t
    fun prev s new rest _ => hrule prev s new rest).symm
  intro s s' t t' hs ht
  rw [solid_append, solid_append, hs, ht]

/-- What is read by `loosely?`: the piece and blanks. -/
theorem eq_of_loosely? {piece t rest : Text} (h : loosely? piece t = some rest) :
    ∃ blanks, t = piece ++ blanks ++ rest ∧ ∀ c ∈ blanks, isBlank c = true := by
  rw [loosely?, Option.map_eq_some_iff] at h
  obtain ⟨u, hu, rfl⟩ := h
  refine ⟨u.takeWhile isBlank, ?_, fun c hc => List.all_eq_true.mp List.all_takeWhile c hc⟩
  rw [List.append_assoc, skipBlanks, List.takeWhile_append_dropWhile]
  exact eq_append_of_after? hu

theorem loosely?_append (piece : Text) {blanks rest : Text} (hb : ∀ c ∈ blanks, isBlank c = true)
    (hrest : ∀ c ∈ rest.head?, isBlank c = false) :
    loosely? piece (piece ++ (blanks ++ rest)) = some rest := by
  have hskip : skipBlanks rest = rest := by
    cases rest with
    | nil => rfl
    | cons c rest => exact List.dropWhile_cons_of_neg (by simp [hrest c rfl])
  rw [loosely?, after?_append, Option.map_some, skipBlanks, List.dropWhile_append_of_pos hb]
  exact congrArg some hskip

/-- The declaration of strict types, with any white space between its parts. -/
def IsStrictTypes (m : Text) : Prop :=
  ∃ b₁ b₂ b₃ b₄ b₅ b₆ : Text, (∀ b ∈ [b₁, b₂, b₃, b₄, b₅, b₆], ∀ c ∈ b, isBlank c = true) ∧
    m = "declare" ++ (b₁ ++ ("(" ++ (b₂ ++ ("strict_types" ++ (b₃ ++ ("=" ++ (b₄ ++ ("1" ++ (b₅ ++
      (")" ++ (b₆ ++ ";")))))))))))

/-- **What is read as a declaration of strict types is one.** -/
theorem looseStrictTypes?_eq_some_iff {t rest : Text} :
    looseStrictTypes? t = some rest ↔ ∃ m, IsStrictTypes m ∧ t = m ++ rest := by
  simp only [looseStrictTypes?, Option.bind_eq_bind]
  constructor
  · intro h
    simp only [Option.bind_eq_some_iff] at h
    obtain ⟨t₁, h₁, t₂, h₂, t₃, h₃, t₄, h₄, t₅, h₅, t₆, h₆, h₇⟩ := h
    obtain ⟨b₁, rfl, e₁⟩ := eq_of_loosely? h₁
    obtain ⟨b₂, rfl, e₂⟩ := eq_of_loosely? h₂
    obtain ⟨b₃, rfl, e₃⟩ := eq_of_loosely? h₃
    obtain ⟨b₄, rfl, e₄⟩ := eq_of_loosely? h₄
    obtain ⟨b₅, rfl, e₅⟩ := eq_of_loosely? h₅
    obtain ⟨b₆, rfl, e₆⟩ := eq_of_loosely? h₆
    rw [eq_append_of_after? h₇]
    refine ⟨_, ⟨b₁, b₂, b₃, b₄, b₅, b₆, ?_, rfl⟩, by simp only [List.append_assoc]⟩
    simp only [List.forall_mem_cons, List.not_mem_nil, false_implies, implies_true, and_true]
    exact ⟨e₁, e₂, e₃, e₄, e₅, e₆⟩
  · rintro ⟨m, ⟨b₁, b₂, b₃, b₄, b₅, b₆, hblank, rfl⟩, rfl⟩
    simp only [List.forall_mem_cons, List.not_mem_nil, false_implies, implies_true, and_true]
      at hblank
    obtain ⟨e₁, e₂, e₃, e₄, e₅, e₆⟩ := hblank
    have hhead : ∀ {p : Text} (u : Text), p.head?.any (!isBlank ·) = true →
        ∀ c ∈ (p ++ u).head?, isBlank c = false := by
      rintro (- | ⟨d, p⟩) u hp c hc
      · cases hp
      · obtain rfl := Option.some.inj hc
        simpa using hp
    simp only [List.append_assoc]
    rw [loosely?_append _ e₁ (hhead _ (by decide)), Option.bind_some,
      loosely?_append _ e₂ (hhead _ (by decide)), Option.bind_some,
      loosely?_append _ e₃ (hhead _ (by decide)), Option.bind_some,
      loosely?_append _ e₄ (hhead _ (by decide)), Option.bind_some,
      loosely?_append _ e₅ (hhead _ (by decide)), Option.bind_some,
      loosely?_append _ e₆ (hhead _ (by decide)), Option.bind_some]
    exact after?_append ";" rest

theorem solid_of_isStrictTypes {m : Text} (h : IsStrictTypes m) : solid m = strictTypes := by
  obtain ⟨b₁, b₂, b₃, b₄, b₅, b₆, hblank, rfl⟩ := h
  simp only [List.forall_mem_cons, List.not_mem_nil, false_implies, implies_true, and_true]
    at hblank
  obtain ⟨e₁, e₂, e₃, e₄, e₅, e₆⟩ := hblank
  simp only [solid_append, solid_eq_nil e₁, solid_eq_nil e₂, solid_eq_nil e₃, solid_eq_nil e₄,
    solid_eq_nil e₅, solid_eq_nil e₆]
  decide

theorem tightenStrictTypes_keeps (prev : Option Char) (t new rest : Text)
    (h : tightenStrictTypes prev t = some (new, rest)) :
    ∃ old, t = old ++ rest ∧ old ≠ [] ∧ solid old = solid new := by
  simp only [tightenStrictTypes, Option.map_eq_some_iff, Prod.mk.injEq] at h
  obtain ⟨u, hu, rfl, rfl⟩ := h
  obtain ⟨old, hold, rfl⟩ := looseStrictTypes?_eq_some_iff.mp hu
  have hsolid := solid_of_isStrictTypes hold
  refine ⟨old, rfl, ?_, by rw [hsolid]; decide⟩
  rintro rfl
  exact absurd hsolid (by decide)

theorem eq_of_behindLineFeeds? {t rest : Text} (h : behindLineFeeds? t = some rest) :
    ∃ old, t = old ++ rest ∧ IsBreak old := by
  simp only [behindLineFeeds?] at h
  split at h
  · rename_i hhead
    cases h
    refine ⟨t.takeWhile isSpaceTab ++ (t.dropWhile isSpaceTab).takeWhile (· == '\n'), ?_, ?_⟩
    · rw [List.append_assoc, List.takeWhile_append_dropWhile, List.takeWhile_append_dropWhile]
    · refine .append (fun c hc => ?_) (.of_lineFeeds (fun c hc => ?_) ?_)
      · exact isBlank_of_isSpaceTab (List.all_eq_true.mp List.all_takeWhile c hc)
      · simpa using List.all_eq_true.mp List.all_takeWhile c hc
      · rw [Bool.and_eq_true, decide_eq_true_eq] at hhead
        cases ht : t.dropWhile isSpaceTab with
        | nil => simp [ht] at hhead
        | cons c u =>
          rw [ht] at hhead
          have hc : c = '\n' := Option.some.inj hhead.1
          simp [hc]
  · cases h

theorem isBreak_lineFeeds : IsBreak "\n\n" := .of_lineFeeds (by decide) (by simp)

/-- Two line feeds take the place of a break behind a piece. -/
theorem relaid_behind (p : Text) {old : Text} (h : IsBreak old) :
    Relaid (p ++ old) (p ++ "\n\n") :=
  (Relaid.refl p).append (.of_break h isBreak_lineFeeds rfl)

theorem separateStrictTypes_relays (prev : Option Char) (t new rest : Text)
    (h : separateStrictTypes prev t = some (new, rest)) :
    ∃ old, t = old ++ rest ∧ old ≠ [] ∧ Relaid old new := by
  simp only [separateStrictTypes, Option.bind_eq_bind, Option.bind_eq_some_iff,
    Option.some.injEq, Prod.mk.injEq] at h
  obtain ⟨u, hu, behind, hb, hnew, hrest⟩ := h
  subst hnew hrest
  obtain ⟨old, rfl, hold⟩ := eq_of_behindLineFeeds? hb
  have hne : strictTypes ≠ [] := by decide
  refine ⟨strictTypes ++ old, ?_, List.append_ne_nil_of_left_ne_nil hne old,
    relaid_behind strictTypes hold⟩
  rw [List.append_assoc]
  exact eq_append_of_after? hu

theorem relaid_separateOpenTag (t : Text) : Relaid t (separateOpenTag t) := by
  rw [separateOpenTag]
  split
  · rename_i rest h
    split
    · exact .refl t
    · rw [Option.bind_eq_some_iff] at h
      obtain ⟨u, hu, hb⟩ := h
      obtain ⟨old, rfl, hold⟩ := eq_of_behindLineFeeds? hb
      rw [eq_append_of_after? hu, ← List.append_assoc]
      exact (relaid_behind openTag hold).append (.refl rest)
  · exact .refl t

/-- An import is a beginning of the text, up to and with a line feed. -/
theorem eq_of_importLine? {t rest : Text} (h : importLine? t = some rest) :
    ∃ line, t = line ++ '\n' :: rest := by
  simp only [importLine?, Option.bind_eq_bind, Option.bind_eq_some_iff] at h
  obtain ⟨u, hu, v, hv, w, hw, h⟩ := h
  split at h
  · cases h
    have e₁ := eq_append_of_after? hu
    have e₂ := eq_append_of_after? hv
    have e₃ := eq_append_of_after? hw
    refine ⟨("use" : Text) ++ u.takeWhile (· != ';') ++ ";" ++ v.takeWhile isSpaceTab, ?_⟩
    rw [e₁]
    conv => lhs; rw [← List.takeWhile_append_dropWhile (p := (· != ';')) (l := u), e₂,
      ← List.takeWhile_append_dropWhile (p := isSpaceTab) (l := v), e₃]
    simp only [List.append_assoc]
    rfl
  · cases h

theorem separateImport_relays (prev : Option Char) (t new rest : Text)
    (h : separateImport prev t = some (new, rest)) :
    ∃ old, t = old ++ rest ∧ old ≠ [] ∧ Relaid old new := by
  rw [separateImport] at h
  split at h
  · simp only [Option.bind_eq_bind, Option.bind_eq_some_iff] at h
    obtain ⟨u, hu, h⟩ := h
    split at h
    · simp only [Option.some.injEq, Prod.mk.injEq] at h
      obtain ⟨rfl, rfl⟩ := h
      obtain ⟨line, rfl⟩ := eq_of_importLine? hu
      have hsplit : line ++ '\n' :: u = (line ++ ['\n']) ++ u := by simp
      refine ⟨line ++ ['\n'], hsplit, by simp, ?_⟩
      rw [hsplit, List.length_append, Nat.add_sub_cancel, List.take_left, List.append_assoc]
      exact relaid_behind line .lineFeed
    · cases h
  · cases h

theorem collapseLineFeeds_relays (prev : Option Char) (t new rest : Text)
    (h : collapseLineFeeds prev t = some (new, rest)) :
    ∃ old, t = old ++ rest ∧ old ≠ [] ∧ Relaid old new := by
  rw [collapseLineFeeds] at h
  split at h
  · rename_i hs
    simp only [Option.some.injEq, Prod.mk.injEq] at h
    obtain ⟨rfl, rfl⟩ := h
    obtain ⟨u, hu⟩ := Option.isSome_iff_exists.mp hs
    have hne : t.takeWhile (· == '\n') ≠ [] := by
      rw [eq_append_of_after? hu]
      simp
    have hfeeds : IsBreak (t.takeWhile (· == '\n')) := .of_lineFeeds (fun c hc => by
      simpa using List.all_eq_true.mp List.all_takeWhile c hc) hne
    exact ⟨_, List.takeWhile_append_dropWhile.symm, hne, relaid_behind [] hfeeds⟩
  · cases h

theorem relaid_replaceAll {rule : Replacement}
    (hrule : ∀ prev t new rest, rule prev t = some (new, rest) →
      ∃ old, t = old ++ rest ∧ old ≠ [] ∧ Relaid old new) (t : Text) :
    Relaid t (replaceAll rule t) :=
  replaceAll_related Relaid.refl (fun h h' => h.append h') t fun prev s new rest _ =>
    hrule prev s new rest

theorem solid_trimLines (t : Text) : solid (trimLines t) = solid t :=
  solid_ofLines_map fun l _ => solid_dropEndWhile_of (fun _ h => isBlank_of_isSpaceTab h) l

/-- The six passes keep the solid characters. -/
theorem solid_formatted (t : Text) : solid (formatted t) = solid t := by
  simp only [formatted]
  rw [solid_append, solid_trimWhile_of (fun _ h => isBlank_of_eq_lineFeed h),
    ← solid_of_relaid (relaid_replaceAll collapseLineFeeds_relays _), solid_trimLines,
    ← solid_of_relaid (relaid_replaceAll separateImport_relays _),
    ← solid_of_relaid (relaid_separateOpenTag _),
    ← solid_of_relaid (relaid_replaceAll separateStrictTypes_relays _),
    solid_replaceAll tightenStrictTypes_keeps,
    show solid ("\n" : Text) = [] from by decide, List.append_nil]

theorem solid_normalizeWhitespace (t : Text) :
    solid (normalizeWhitespace t) =
      (if startsWith openTag (formatted t) then [] else openTag) ++ solid t := by
  rw [normalizeWhitespace, withOpenTag]
  split
  · exact solid_formatted t
  · rw [solid_append, solid_append, solid_formatted]
    congr 1

end EntityScaffold.Source
