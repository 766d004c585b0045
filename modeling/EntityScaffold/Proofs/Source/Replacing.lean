import EntityScaffold.Proofs.Source.KeptLayout

/-!
# What a rule of replacement makes of a text

* `Replaced` — the text before a pass and the text behind it, place by place: a character at which
  the rule does not apply stays, and a place at which it does is replaced.
* `replaced_replaceAll` — a pass does just that.
* `Throughout` — something that holds at every place of a text, whatever precedes the place.
* `Settles`, `replaceAll_of_settles` — a rule that writes what stands there already changes nothing.
-/

set_option autoImplicit false

namespace EntityScaffold.Source

open Text

/-- What becomes of a text under a rule.  `prev` is the character in front of it. -/
inductive Replaced (rule : Replacement) : Option Char → Text → Text → Prop where
  | nil {prev : Option Char} : Replaced rule prev [] []
  | keep {prev : Option Char} {c : Char} {s t : Text} (stays : rule prev (c :: s) = none)
      (rest : Replaced rule (some c) s t) : Replaced rule prev (c :: s) (c :: t)
  | swap {prev : Option Char} {old new s t : Text} (found : rule prev (old ++ s) = some (new, s))
      (nonempty : old ≠ []) (rest : Replaced rule (old.getLast?.or prev) s t) :
      Replaced rule prev (old ++ s) (new ++ t)

/-- A rule that replaces a beginning of the text, and at least one character. -/
def Replacement.Consumes (rule : Replacement) : Prop :=
  ∀ prev t new rest, rule prev t = some (new, rest) → ∃ old, t = old ++ rest ∧ old ≠ []

/-- The character that a place behind a beginning has in front of it. -/
theorem getLast?_or_cons (c : Char) (s : Text) (prev : Option Char) :
    (c :: s).getLast?.or prev = s.getLast?.or (some c) := by
  rw [List.getLast?_cons]
  cases s.getLast? <;> rfl

section

variable {rule : Replacement} {prev : Option Char} {s t : Text}

theorem replaceFrom_length (rule : Replacement) (prev : Option Char) (s t : Text) :
    replaceFrom rule prev s.length (s ++ t) = replaceFrom rule (s.getLast?.or prev) 0 t := by
  induction s generalizing prev with
  | nil => rfl
  | cons c s ih =>
    rw [List.length_cons, List.cons_append, replaceFrom, ih (some c), getLast?_or_cons]

/-- **A pass replaces what its rule says**, from left to right. -/
theorem replaced_replaceFrom (h : rule.Consumes) (prev : Option Char) (t : Text) :
    Replaced rule prev t (replaceFrom rule prev 0 t) := by
  -- the induction is on the length, since a place that is replaced is passed over at once
  induction hn : t.length using Nat.strongRecOn generalizing prev t with
  | ind n ih =>
    cases t with
    | nil => exact .nil
    | cons c t =>
      rw [replaceFrom]
      cases hrule : rule prev (c :: t) with
      | none => exact .keep hrule (ih t.length (by rw [← hn]; simp) (some c) t rfl)
      | some found =>
        obtain ⟨new, rest⟩ := found
        obtain ⟨old, hold, hne⟩ := h prev _ _ _ hrule
        obtain ⟨d, old, rfl⟩ := List.exists_cons_of_ne_nil hne
        rw [List.cons_append, List.cons.injEq] at hold
        obtain ⟨rfl, rfl⟩ := hold
        simp only [List.length_append, Nat.add_sub_cancel]
        rw [replaceFrom_length, ← getLast?_or_cons c old prev]
        have hshort : rest.length < n := by
          rw [← hn]
          simp only [List.length_cons, List.length_append]
          omega
        exact .swap hrule hne (ih rest.length hshort _ rest rfl)

theorem replaced_replaceAll (h : rule.Consumes) (t : Text) :
    Replaced rule none t (replaceAll rule t) := replaced_replaceFrom h none t

/-- A beginning at which the rule does not apply stays, with all that follows replaced. -/
theorem Replaced.of_append (hs : ∀ p c u, c ∈ s → rule p (c :: u) = none) {u : Text}
    (h : Replaced rule prev (s ++ t) u) :
    ∃ v, u = s ++ v ∧ Replaced rule (s.getLast?.or prev) t v := by
  induction s generalizing prev u with
  | nil => exact ⟨u, rfl, h⟩
  | cons c s ih =>
    generalize hx : c :: s ++ t = x at h
    cases h with
    | nil => cases hx
    | keep _ rest =>
      obtain ⟨rfl, rfl⟩ := List.cons.inj hx
      obtain ⟨v, rfl, hv⟩ := ih (fun p d w hd => hs p d w (List.mem_cons_of_mem c hd)) rest
      rw [getLast?_or_cons]
      exact ⟨v, rfl, hv⟩
    | swap found hne =>
      rw [← hx, List.cons_append, hs prev c _ List.mem_cons_self] at found
      cases found

/-- What stands in the new text up to the letter that new pieces begin with stood there before. -/
theorem Replaced.of_append_new {d : Char} {x : Text}
    (hrule : ∀ p u new v, rule p u = some (new, v) → new.head? = some d) (hx : d ∉ x)
    (h : Replaced rule prev s (x ++ t)) :
    ∃ w, s = x ++ w ∧ Replaced rule (x.getLast?.or prev) w t := by
  induction x generalizing prev s with
  | nil => exact ⟨s, rfl, h⟩
  | cons c x ih =>
    obtain ⟨hc, hx⟩ := not_or.mp (mt List.mem_cons.mpr hx)
    generalize hy : c :: x ++ t = y at h
    cases h with
    | nil => cases hy
    | keep _ rest =>
      obtain ⟨rfl, rfl⟩ := List.cons.inj hy
      obtain ⟨w, rfl, hw⟩ := ih hx rest
      rw [getLast?_or_cons]
      exact ⟨w, rfl, hw⟩
    | @swap _ _ new _ _ found =>
      have hhead := hrule _ _ _ _ found
      cases new with
      | nil => cases hhead
      | cons e new =>
        obtain rfl := Option.some.inj hhead
        exact absurd (List.cons.inj hy).1.symm hc

end

/-! ## Every place of a text -/

/-- It holds at every place: of the character in front, and of the text from there on. -/
def Throughout (P : Option Char → Text → Prop) : Option Char → Text → Prop
  | _, [] => True
  | prev, c :: t => P prev (c :: t) ∧ Throughout P (some c) t

namespace Throughout

variable {P Q : Option Char → Text → Prop} {prev prev' : Option Char} {s t : Text}

theorem mono (hPQ : ∀ p s, P p s → Q p s) (h : Throughout P prev t) : Throughout Q prev t := by
  induction t generalizing prev with
  | nil => trivial
  | cons c t ih => exact ⟨hPQ _ _ h.1, ih h.2⟩

theorem drop (h : Throughout P prev (s ++ t)) : Throughout P (s.getLast?.or prev) t := by
  induction s generalizing prev with
  | nil => exact h
  | cons c s ih =>
    rw [getLast?_or_cons]
    exact ih h.2

theorem place {c : Char} (h : Throughout P prev (s ++ c :: t)) :
    P (s.getLast?.or prev) (c :: t) := h.drop.1

/-- What is said of every place of a beginning, and of every place behind it. -/
theorem append (hs : ∀ p c u, c ∈ s → P p (c :: u)) (ht : Throughout P (s.getLast?.or prev) t) :
    Throughout P prev (s ++ t) := by
  induction s generalizing prev with
  | nil => exact ht
  | cons c s ih =>
    rw [getLast?_or_cons] at ht
    exact ⟨hs prev c _ List.mem_cons_self, ih (fun p d u hd => hs p d u (List.mem_cons_of_mem c hd)) ht⟩

/-- What does not depend on the character in front. -/
theorem congr {P : Text → Prop} (h : Throughout (fun _ s => P s) prev t) :
    Throughout (fun _ s => P s) prev' t := by
  cases t with
  | nil => trivial
  | cons c t => exact h

theorem of_forall (h : ∀ p a c u, t = a ++ c :: u → P p (c :: u)) : Throughout P prev t := by
  induction t generalizing prev with
  | nil => trivial
  | cons c t ih =>
    refine ⟨h prev [] c t rfl, ih fun p a d u hu => h p (c :: a) d u ?_⟩
    rw [hu, List.cons_append]

end Throughout

/-- Wherever the rule applies, it writes what stands there. -/
def Settles (rule : Replacement) : Option Char → Text → Prop :=
  Throughout fun prev s => ∀ new rest, rule prev s = some (new, rest) → s = new ++ rest

/-- The rule applies nowhere. -/
def Idle (rule : Replacement) : Option Char → Text → Prop :=
  Throughout fun prev s => rule prev s = none

section

variable {rule : Replacement} {prev : Option Char} {s t : Text}

theorem Idle.settles (h : Idle rule prev t) : Settles rule prev t := by
  refine Throughout.mono (fun p s hnone new rest hrule => ?_) h
  rw [hnone] at hrule
  cases hrule

theorem Replaced.eq_of_settles (h : Replaced rule prev s t) (hs : Settles rule prev s) : t = s := by
  induction h with
  | nil => rfl
  | keep _ _ ih => rw [ih hs.2]
  | @swap prev old new s t found hne _ ih =>
    obtain ⟨c, old, rfl⟩ := List.exists_cons_of_ne_nil hne
    have hnew : c :: old ++ s = new ++ s := hs.1 _ _ found
    rw [ih (Throughout.drop hs), ← List.append_cancel_right hnew]

/-- **A text that it leaves stays.** -/
theorem replaceAll_of_settles (h : rule.Consumes) (hs : Settles rule none t) :
    replaceAll rule t = t := (replaced_replaceAll h t).eq_of_settles hs

end

/-! ## The rules of the layout -/

theorem tightenStrictTypes_consumes : Replacement.Consumes tightenStrictTypes := by
  intro prev t new rest h
  obtain ⟨old, hold, hne, -⟩ := tightenStrictTypes_keeps prev t new rest h
  exact ⟨old, hold, hne⟩

theorem separateStrictTypes_consumes : Replacement.Consumes separateStrictTypes := by
  intro prev t new rest h
  obtain ⟨old, hold, hne, -⟩ := separateStrictTypes_relays prev t new rest h
  exact ⟨old, hold, hne⟩

theorem separateImport_consumes : Replacement.Consumes separateImport := by
  intro prev t new rest h
  obtain ⟨old, hold, hne, -⟩ := separateImport_relays prev t new rest h
  exact ⟨old, hold, hne⟩

theorem collapseLineFeeds_consumes : Replacement.Consumes collapseLineFeeds := by
  intro prev t new rest h
  obtain ⟨old, hold, hne, -⟩ := collapseLineFeeds_relays prev t new rest h
  exact ⟨old, hold, hne⟩

end EntityScaffold.Source
