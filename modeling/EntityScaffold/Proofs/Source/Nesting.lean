import EntityScaffold.Proofs.Source.Brackets
import Mathlib.Data.List.Induction

/-!
# Brackets that nest

What it means that brackets nest, said by a grammar and without a stack: a nested text is plain
characters and pairs of brackets around nested texts.  The stack of `bracketRun` holds the brackets
that a text leaves open.

* `Nested`, `Opens` — texts whose brackets are all closed, and texts that leave some open.
* `opens_iff_bracketRun`, `nested_iff_bracketRun` — the stack tells which.
* `Sheltered` — a character that stands within brackets only; `sheltered_or_exists_first` cuts a text at
  its first place outside of them.
-/

set_option autoImplicit false

namespace EntityScaffold.Source

open Text

/-- Every bracket of the text is closed within it, by a bracket of its kind. -/
inductive Nested : Text → Prop where
  | nil : Nested []
  | plain {c : Char} {t : Text} (hopener : isOpener c = false) (hcloser : isCloser c = false)
      (ht : Nested t) : Nested (c :: t)
  | pair {o c : Char} {s t : Text} (hpair : closerOf? o = some c) (hs : Nested s) (ht : Nested t) :
      Nested (o :: (s ++ c :: t))

/-- The text leaves the brackets `openers` open, the innermost first, and closes all others. -/
inductive Opens : List Char → Text → Prop where
  | nested {t : Text} (ht : Nested t) : Opens [] t
  | opener {openers : List Char} {o : Char} {s t : Text} (hs : Opens openers s)
      (ho : isOpener o = true) (ht : Nested t) : Opens (o :: openers) (s ++ o :: t)

/-- The character stands within brackets only: no nested text is in front of it. -/
def Sheltered (d : Char) (t : Text) : Prop := ∀ a b, t = a ++ d :: b → ¬ Nested a

/-! ## Brackets and the stack -/

section

variable {openers : List Char} {s t : Text} {c d : Char}

/-- Behind a nested text as many brackets are open as in front of it. -/
theorem bracketRun_of_nested (h : Nested t) (openers : List Char) :
    bracketRun openers t = some openers := by
  induction h generalizing openers with
  | nil => rfl
  | plain ho hc _ ih =>
    rw [bracketRun_cons, bracketStep_of_plain ho hc, Option.bind_some, ih]
  | pair hpair _ _ ihs iht =>
    rw [bracketRun_cons, bracketStep_of_opener (brackets_of_closerOf? hpair).1, Option.bind_some,
      bracketRun_append, ihs, Option.bind_some, bracketRun_cons, bracketStep_of_closerOf? hpair,
      Option.bind_some, iht]

theorem Nested.single (ho : isOpener c = false) (hc : isCloser c = false) : Nested [c] :=
  .plain ho hc .nil

theorem Nested.append (hs : Nested s) (ht : Nested t) : Nested (s ++ t) := by
  induction hs with
  | nil => exact ht
  | plain ho hc _ ih => exact .plain ho hc ih
  | pair hpair hs _ _ ih =>
    rw [List.cons_append, List.append_assoc, List.cons_append]
    exact .pair hpair hs ih

theorem Opens.append (hs : Opens openers s) (ht : Nested t) : Opens openers (s ++ t) := by
  cases hs with
  | nested hs => exact .nested (hs.append ht)
  | opener hs ho hu =>
    rw [List.append_assoc, List.cons_append]
    exact .opener hs ho (hu.append ht)

/-- **The stack holds the brackets that are left open.** -/
theorem opens_iff_bracketRun : Opens openers t ↔ bracketRun [] t = some openers := by
  constructor
  · intro h
    induction h with
    | nested ht => exact bracketRun_of_nested ht []
    | opener _ ho ht ih =>
      rw [bracketRun_append, ih, Option.bind_some, bracketRun_cons, bracketStep_of_opener ho,
        Option.bind_some, bracketRun_of_nested ht]
  · intro h
    -- the last character decides what becomes of the brackets that the text in front of it opens
    induction t using List.reverseRecOn generalizing openers with
    | nil =>
      cases h
      exact .nested .nil
    | append_singleton s c ih =>
      rw [bracketRun_append, Option.bind_eq_some_iff] at h
      obtain ⟨before, hbefore, hlast⟩ := h
      rw [bracketRun_cons, Option.bind_eq_some_iff] at hlast
      obtain ⟨after, hstep, hafter⟩ := hlast
      obtain rfl : after = openers := Option.some.inj hafter
      have hs := ih hbefore
      obtain ⟨ho, rfl⟩ | ⟨-, -, o, rfl, hpair⟩ | ⟨ho, hc, rfl⟩ := bracketStep_cases hstep
      · exact .opener hs ho .nil
      · cases hs with
        | @opener _ _ a b ha _ hb =>
          rw [List.append_assoc, List.cons_append]
          exact ha.append (.pair hpair hb .nil)
      · exact hs.append (.single ho hc)

/-- **A text is nested exactly if its brackets match.** -/
theorem nested_iff_bracketRun : Nested t ↔ bracketRun [] t = some [] := by
  rw [← opens_iff_bracketRun]
  constructor
  · exact .nested
  · intro h
    cases h with
    | nested ht => exact ht

/-- What follows a nested text within one is nested. -/
theorem Nested.of_append (h : Nested (s ++ t)) (hs : Nested s) : Nested t := by
  rw [nested_iff_bracketRun] at h hs ⊢
  rwa [bracketRun_append, hs, Option.bind_some] at h

/-! ## Outside of brackets -/

theorem sheltered_nil : Sheltered d [] := by
  intro a b h
  simp at h

theorem sheltered_concat : Sheltered d (t ++ [c]) ↔ Sheltered d t ∧ (c = d → ¬ Nested t) := by
  constructor
  · intro h
    refine ⟨fun a b hab => h a (b ++ [c]) (by simp [hab]), ?_⟩
    rintro rfl
    exact h t [] rfl
  · rintro ⟨ht, hlast⟩ a b hab
    -- the place is the last one, or one in the text in front of it
    cases b using List.reverseRecOn with
    | nil =>
      obtain ⟨rfl, hcd⟩ := List.append_inj' hab rfl
      exact hlast (List.cons.inj hcd).1
    | append_singleton b e =>
      rw [← List.cons_append, ← List.append_assoc] at hab
      exact ht a b (List.append_inj' hab rfl).1

theorem Sheltered.of_append (h : Sheltered d (s ++ t)) (hs : Nested s) : Sheltered d t :=
  fun a b hab ha => h (s ++ a) b (by rw [hab, List.append_assoc]) (hs.append ha)

/-- A character stands within brackets only, or there is a first place where it does not. -/
theorem sheltered_or_exists_first (d : Char) (t : Text) :
    Sheltered d t ∨ ∃ a b, t = a ++ d :: b ∧ Nested a ∧ Sheltered d a := by
  induction t using List.reverseRecOn with
  | nil => exact .inl sheltered_nil
  | append_singleton s c ih =>
    obtain hs | ⟨a, b, rfl, ha, hshelter⟩ := ih
    · by_cases h : c = d ∧ Nested s
      · obtain ⟨rfl, hnested⟩ := h
        exact .inr ⟨s, [], rfl, hnested, hs⟩
      · exact .inl (sheltered_concat.mpr ⟨hs, fun hc hnested => h ⟨hc, hnested⟩⟩)
    · exact .inr ⟨a, b ++ [c], by simp, ha, hshelter⟩

/-- **There is one first place outside of brackets.** -/
theorem first_unique {a b a' b' : Text} (h : a ++ d :: b = a' ++ d :: b') (ha : Nested a)
    (ha' : Nested a') (hfirst : Sheltered d a) (hfirst' : Sheltered d a') : a = a' ∧ b = b' := by
  rw [List.append_eq_append_iff] at h
  obtain ⟨x, rfl, hx⟩ | ⟨x, rfl, hx⟩ := h
  · cases x with
    | nil => simpa using hx
    | cons e x =>
      obtain ⟨rfl, -⟩ := List.cons.inj hx
      exact absurd ha (hfirst' a x rfl)
  · cases x with
    | nil => simpa using hx.symm
    | cons e x =>
      obtain ⟨rfl, -⟩ := List.cons.inj hx
      exact absurd ha' (hfirst a' x rfl)

end

end EntityScaffold.Source
