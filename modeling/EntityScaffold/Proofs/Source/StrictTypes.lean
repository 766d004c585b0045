import EntityScaffold.Proofs.Source.LayoutGaps

/-!
# The declaration of strict types in the file layout

The first pass writes every declaration of strict types in its shortest form, the second puts a blank
line behind those that had one line feed or more behind them.  What either has done holds at every
place of the text, and the later passes, which respace the text, keep it.

* `ShortAt`, `ApartAt` — what the two passes achieve where a declaration begins.
* `Replaced.short`, `Replaced.apart` — they do.
* `Throughout.short_respaced`, `Throughout.apart_respaced` — the later passes keep it.
-/

set_option autoImplicit false

namespace EntityScaffold.Source

open Text

variable {grows : Bool} {prev : Option Char} {s t u : Text}

/-- A declaration of strict types that begins here is written in its shortest form. -/
def ShortAt (s : Text) : Prop := ∀ m rest, IsStrictTypes m → s = m ++ rest → m = strictTypes

/-- A declaration of strict types that begins here does not have just one line feed behind it. -/
def ApartAt (s : Text) : Prop := ∀ u v, s = strictTypes ++ u → ¬ Respaced.OneFeed u v

/-! ## Where declarations begin -/

/-- The first letter of a declaration does not occur in it again. -/
theorem IsStrictTypes.eq_cons {m : Text} (h : IsStrictTypes m) : ∃ x, m = 'd' :: x ∧ 'd' ∉ x := by
  obtain ⟨b₁, b₂, b₃, b₄, b₅, b₆, hblank, rfl⟩ := h
  have hfree : ∀ b ∈ [b₁, b₂, b₃, b₄, b₅, b₆], 'd' ∉ b := by
    intro b hb hm
    have hd : isBlank 'd' = true := hblank b hb 'd' hm
    revert hd
    decide
  simp only [List.forall_mem_cons, List.not_mem_nil, false_implies, implies_true, and_true] at hfree
  obtain ⟨h₁, h₂, h₃, h₄, h₅, h₆⟩ := hfree
  refine ⟨"eclare" ++ (b₁ ++ ("(" ++ (b₂ ++ ("strict_types" ++ (b₃ ++ ("=" ++ (b₄ ++ ("1" ++ (b₅ ++
    (")" ++ (b₆ ++ ";"))))))))))), rfl, ?_⟩
  simp only [List.mem_append, not_or]
  exact ⟨by decide, h₁, by decide, h₂, by decide, h₃, by decide, h₄, by decide, h₅, by decide, h₆,
    by decide⟩

theorem shortAt_of_ne {c : Char} (hc : c ≠ 'd') (u : Text) : ShortAt (c :: u) := by
  intro m rest hm heq
  obtain ⟨x, rfl, -⟩ := hm.eq_cons
  exact absurd (List.cons.inj heq).1 hc

theorem apartAt_of_ne {c : Char} (hc : c ≠ 'd') (u : Text) : ApartAt (c :: u) := by
  intro w v heq
  exact absurd (List.cons.inj heq).1 hc

/-- No character of the shortest form but the first begins a declaration. -/
theorem ne_of_mem_strictTypes : ∀ c ∈ strictTypes.tail, c ≠ 'd' := by decide

theorem looseStrictTypes?_of_isStrictTypes {m : Text} (h : IsStrictTypes m) (rest : Text) :
    looseStrictTypes? (m ++ rest) = some rest :=
  looseStrictTypes?_eq_some_iff.mpr ⟨m, h, rfl⟩

theorem isStrictTypes_strictTypes : IsStrictTypes strictTypes :=
  ⟨[], [], [], [], [], [], by simp, rfl⟩

theorem tightenStrictTypes_of_ne {c : Char} (hc : c ≠ 'd') (p : Option Char) (u : Text) :
    tightenStrictTypes p (c :: u) = none := by
  rw [tightenStrictTypes, Option.map_eq_none_iff, Option.eq_none_iff_forall_ne_some]
  intro rest hrest
  obtain ⟨m, hm, heq⟩ := looseStrictTypes?_eq_some_iff.mp hrest
  obtain ⟨x, rfl, -⟩ := hm.eq_cons
  exact hc (List.cons.inj heq).1

theorem shortAt_strictTypes (u : Text) : ShortAt (strictTypes ++ u) := by
  intro m rest hm heq
  have hread : looseStrictTypes? (strictTypes ++ u) = some u :=
    looseStrictTypes?_of_isStrictTypes isStrictTypes_strictTypes u
  rw [heq, looseStrictTypes?_of_isStrictTypes hm, Option.some.injEq] at hread
  rw [hread] at heq
  exact (List.append_cancel_right heq).symm

theorem not_oneFeed_feeds {v : Text} (u : Text) : ¬ Respaced.OneFeed (feeds 2 ++ u) v := by
  rintro ⟨x, heq, hx, hv⟩
  cases x with
  | nil =>
    obtain rfl : '\n' :: u = v := (List.cons.inj heq).2
    exact head?_ne_lineFeed hv rfl
  | cons c x =>
    obtain rfl : '\n' = c := (List.cons.inj heq).1
    exact Bool.noConfusion (hx '\n' List.mem_cons_self)

theorem apartAt_strictTypes (u : Text) : ApartAt (strictTypes ++ (feeds 2 ++ u)) := by
  intro w v heq hfeed
  rw [← List.append_cancel_left heq] at hfeed
  exact not_oneFeed_feeds u hfeed

/-! ## What the two passes achieve -/

theorem eq_of_tightenStrictTypes {p : Option Char} {new rest : Text}
    (h : tightenStrictTypes p u = some (new, rest)) : new = strictTypes := by
  simp only [tightenStrictTypes, Option.map_eq_some_iff, Prod.mk.injEq] at h
  obtain ⟨_, -, rfl, -⟩ := h
  rfl

/-- **The first pass** writes every declaration in its shortest form. -/
theorem Replaced.short (h : Replaced tightenStrictTypes prev s t) :
    Throughout (fun _ s => ShortAt s) prev t := by
  induction h with
  | nil => trivial
  | @keep prev c s t stays rest ih =>
    refine ⟨fun m w hm heq => ?_, ih⟩
    -- the declaration stood there before, so that the rule would have applied
    obtain ⟨x, rfl, hx⟩ := hm.eq_cons
    obtain ⟨rfl, rfl⟩ := List.cons.inj heq
    obtain ⟨v, rfl, -⟩ := rest.of_append_new (d := 'd')
      (fun p u new w hfound => by rw [eq_of_tightenStrictTypes hfound]; rfl) hx
    have hread := looseStrictTypes?_of_isStrictTypes hm v
    rw [List.cons_append] at hread
    rw [tightenStrictTypes, hread] at stays
    cases stays
  | @swap prev old new s t found _ _ ih =>
    obtain rfl := eq_of_tightenStrictTypes found
    have htail : Throughout (fun _ s => ShortAt s) (some 'd') (strictTypes.tail ++ t) :=
      Throughout.append (fun _ c u hc => shortAt_of_ne (ne_of_mem_strictTypes c hc) u) ih.congr
    exact ⟨shortAt_strictTypes t, htail⟩

/-- The first pass leaves something else than spaces, tabs and line feeds, if there was any. -/
theorem Replaced.ink (h : Replaced tightenStrictTypes prev s t) {c : Char} (hm : c ∈ s)
    (hc : isLayout c = false) : ∃ d ∈ t, isLayout d = false := by
  induction h with
  | nil => cases hm
  | @keep prev e s t _ _ ih =>
    rcases List.mem_cons.mp hm with rfl | hm
    · exact ⟨c, List.mem_cons_self, hc⟩
    · obtain ⟨d, hd, hlayout⟩ := ih hm
      exact ⟨d, List.mem_cons_of_mem e hd, hlayout⟩
  | swap found =>
    rw [eq_of_tightenStrictTypes found]
    exact ⟨'d', List.mem_append_left _ (by decide), by decide⟩

/-- **The second pass** puts a blank line behind every declaration that had a line feed behind it. -/
theorem Replaced.apart (h : Replaced separateStrictTypes prev s t) :
    Throughout (fun _ s => ApartAt s) prev t := by
  induction h with
  | nil => trivial
  | @keep prev c s t stays rest ih =>
    refine ⟨fun w v heq hfeed => ?_, ih⟩
    have hspaced : Respaced true (c :: s) (strictTypes ++ w) :=
      heq ▸ .char c (rest.respaced fillsGaps_separateStrictTypes)
    obtain ⟨w', hs, hw⟩ := hspaced.of_append_new (by decide)
    obtain ⟨v', hfeed', -⟩ := hw.oneFeed hfeed
    rw [hs, separateStrictTypes, after?_append, Option.bind_eq_bind, Option.bind_some,
      OneFeed.behindLineFeeds? hfeed'] at stays
    cases stays
  | @swap prev old new s t found _ _ ih =>
    simp only [separateStrictTypes, Option.bind_eq_bind, Option.bind_eq_some_iff,
      Option.some.injEq, Prod.mk.injEq] at found
    obtain ⟨_, -, _, -, rfl, -⟩ := found
    have hfree : ∀ c ∈ strictTypes.tail ++ feeds 2, c ≠ 'd' := by decide
    have htail : Throughout (fun _ s => ApartAt s) (some 'd') ((strictTypes.tail ++ feeds 2) ++ t) :=
      Throughout.append (fun _ c u hc => apartAt_of_ne (hfree c hc) u) ih.congr
    have hfirst := apartAt_strictTypes t
    rw [← List.append_assoc] at hfirst
    exact ⟨hfirst, htail⟩

/-! ## What the later passes keep -/

theorem loosely?_respaced {piece r : Text} (hpiece : '\n' ∉ piece) (h : Respaced grows s t)
    (ht : loosely? piece t = some r) : ∃ r', loosely? piece s = some r' ∧ Respaced grows r' r := by
  rw [loosely?, Option.map_eq_some_iff] at ht
  obtain ⟨v, hv, rfl⟩ := ht
  rw [eq_append_of_after? hv] at h
  obtain ⟨w, rfl, hw⟩ := h.of_append_new hpiece
  exact ⟨skipBlanks w, by rw [loosely?, after?_append]; rfl, hw.dropWhile_isBlank⟩

/-- A declaration begins in the respaced text only where one did. -/
theorem looseStrictTypes?_respaced {r : Text} (h : Respaced grows s t)
    (ht : looseStrictTypes? t = some r) : ∃ r', looseStrictTypes? s = some r' := by
  simp only [looseStrictTypes?, Option.bind_eq_bind, Option.bind_eq_some_iff] at ht
  obtain ⟨t₁, h₁, t₂, h₂, t₃, h₃, t₄, h₄, t₅, h₅, t₆, h₆, h₇⟩ := ht
  obtain ⟨s₁, e₁, k₁⟩ := loosely?_respaced (by decide) h h₁
  obtain ⟨s₂, e₂, k₂⟩ := loosely?_respaced (by decide) k₁ h₂
  obtain ⟨s₃, e₃, k₃⟩ := loosely?_respaced (by decide) k₂ h₃
  obtain ⟨s₄, e₄, k₄⟩ := loosely?_respaced (by decide) k₃ h₄
  obtain ⟨s₅, e₅, k₅⟩ := loosely?_respaced (by decide) k₄ h₅
  obtain ⟨s₆, e₆, k₆⟩ := loosely?_respaced (by decide) k₅ h₆
  rw [eq_append_of_after? h₇] at k₆
  obtain ⟨s₇, rfl, -⟩ := k₆.of_append_new (by decide)
  refine ⟨s₇, ?_⟩
  simp only [looseStrictTypes?, Option.bind_eq_bind, e₁, e₂, e₃, e₄, e₅, e₆, Option.bind_some]
  exact after?_append ";" s₇

theorem ShortAt.respaced (h : Respaced grows s t) (hs : ShortAt s) : ShortAt t := by
  intro m rest hm heq
  obtain ⟨r, hr⟩ := looseStrictTypes?_respaced h (heq ▸ looseStrictTypes?_of_isStrictTypes hm rest)
  obtain ⟨m', hm', rfl⟩ := looseStrictTypes?_eq_some_iff.mp hr
  rw [hs m' r hm' rfl] at h
  obtain ⟨t', rfl, -⟩ := h.of_append (by decide)
  exact shortAt_strictTypes t' m rest hm heq

theorem ApartAt.respaced (h : Respaced grows s t) (hs : ApartAt s) : ApartAt t := by
  rintro u v rfl hfeed
  obtain ⟨w, rfl, hw⟩ := h.of_append_new (by decide)
  obtain ⟨v', hfeed', -⟩ := hw.oneFeed hfeed
  exact hs w v' rfl hfeed'

theorem Throughout.short_respaced (h : Respaced grows s t)
    (hs : Throughout (fun _ s => ShortAt s) prev s) : Throughout (fun _ s => ShortAt s) prev t :=
  hs.respaced (fun _ u => shortAt_of_ne (by decide) u) (fun _ c _ _ huv => ShortAt.respaced (.char c huv)) h

theorem Throughout.apart_respaced (h : Respaced grows s t)
    (hs : Throughout (fun _ s => ApartAt s) prev s) : Throughout (fun _ s => ApartAt s) prev t :=
  hs.respaced (fun _ u => apartAt_of_ne (by decide) u) (fun _ c _ _ huv => ApartAt.respaced (.char c huv)) h

end EntityScaffold.Source
