import EntityScaffold.Proofs.Source.Reading
import EntityScaffold.Source.Declaration
import EntityScaffold.Source.Extent

/-!
# Where a class file is cut

A class file is cut at characters that its mask shows: behind the brace that opens the class, in
front of the brace that closes it, and behind the semicolon or the brace that ends a member.

* `brace_of_classHeaders`, `brace_of_closingBrace?`, `mark_of_extent?` — such a character stands
  where the search for it says.
-/

set_option autoImplicit false

namespace EntityScaffold.Source

open Text

theorem suffix_of_after? {p t r : Text} (h : after? p t = some r) : r <:+ t :=
  ⟨p, (eq_append_of_after? h).symm⟩

theorem suffix_of_blanks? {t r : Text} (h : blanks? t = some r) : r <:+ t := by
  cases t with
  | nil => cases h
  | cons c t =>
    rw [blanks?] at h
    split at h
    · cases h
      exact (List.dropWhile_suffix _).trans (List.suffix_cons c t)
    · cases h

theorem suffix_of_keyword? {keywords : List Text} {t r : Text} (h : keyword? keywords t = some r) :
    r <:+ t := by
  obtain ⟨w, -, hw⟩ := List.exists_of_findSome?_eq_some h
  obtain ⟨u, hu, hr⟩ := Option.bind_eq_some_iff.mp hw
  exact (suffix_of_blanks? hr).trans (suffix_of_after? hu)

theorem steps_suffix {step : Text → Option Text} (hstep : ∀ t r, step t = some r → r <:+ t)
    (t : Text) : steps step t <:+ t := by
  have hwith : ∀ fuel t, stepsWith step fuel t <:+ t := by
    intro fuel
    induction fuel with
    | zero => exact fun t => List.suffix_rfl
    | succ fuel ih =>
      intro t
      rw [stepsWith]
      cases h : step t with
      | none => exact List.suffix_rfl
      | some r => exact (ih r).trans (hstep t r h)
  exact hwith t.length t

/-- A class header ends with a brace. -/
theorem brace_of_classHeader? {t name : Text} {size : Nat} (h : classHeader? t = some (name, size)) :
    ∃ a b, t = a ++ '\x7b' :: b ∧ size = a.length + 1 := by
  simp only [classHeader?, Option.bind_eq_bind, Option.bind_eq_some_iff, Prod.exists,
    Option.some.injEq, Prod.mk.injEq] at h
  obtain ⟨u, hu, v, hv, _, w, hw, x, hx, -, rfl⟩ := h
  have hsteps : steps (keyword? classModifiers) t <:+ t :=
    steps_suffix (fun _ _ => suffix_of_keyword?) t
  have hbrace : '\x7b' :: x <:+ t := by
    have hw : w <:+ v := ⟨_, (eq_of_name? hw).symm⟩
    rw [show '\x7b' :: x = _ from (eq_append_of_after? hx).symm]
    exact (List.dropWhile_suffix _).trans (hw.trans ((suffix_of_blanks? hv).trans
      ((suffix_of_after? hu).trans hsteps)))
  obtain ⟨a, rfl⟩ := hbrace
  exact ⟨a, x, rfl, by simp; omega⟩

/-- **A brace stands where a class header says.** -/
theorem brace_of_classHeaders {m : Text} {header : ClassHeader} (h : header ∈ classHeaders m) :
    ∃ a b, m = a ++ '\x7b' :: b ∧ header.brace = a.length := by
  have hfrom : ∀ (m : Text) (prev : Option Char) (pos skip : Nat),
      header ∈ classHeadersFrom prev pos skip m →
        ∃ a b, m = a ++ '\x7b' :: b ∧ header.brace = pos + a.length := by
    intro m
    induction m with
    | nil => simp [classHeadersFrom]
    | cons c m ih =>
      intro prev pos skip h
      have hstep : ∀ {prev skip}, header ∈ classHeadersFrom prev (pos + 1) skip m →
          ∃ a b, c :: m = a ++ '\x7b' :: b ∧ header.brace = pos + a.length := by
        intro prev skip h
        obtain ⟨a, b, rfl, hbrace⟩ := ih prev (pos + 1) skip h
        exact ⟨c :: a, b, rfl, by rw [hbrace, List.length_cons]; omega⟩
      rw [classHeadersFrom.eq_def] at h
      simp only at h
      split at h
      · exact hstep h
      · split at h
        · rename_i name size hheader
          rcases List.mem_cons.mp h with rfl | h
          · split at hheader
            · obtain ⟨a, b, hm, rfl⟩ := brace_of_classHeader? hheader
              exact ⟨a, b, hm, by simp⟩
            · cases hheader
          · exact hstep h
        · exact hstep h
  simpa using hfrom m none 0 0 h

/-- A brace stands where the class is closed. -/
theorem brace_of_closingBrace? {m : Text} {depth size : Nat}
    (h : closingBrace? depth m = some size) : ∃ a b, m = a ++ '\x7d' :: b ∧ size = a.length := by
  induction m generalizing depth size with
  | nil => cases h
  | cons c m ih =>
    have hstep : ∀ {depth}, (closingBrace? depth m).map (· + 1) = some size →
        ∃ a b, c :: m = a ++ '\x7d' :: b ∧ size = a.length := by
      intro depth h
      obtain ⟨n, hn, rfl⟩ := Option.map_eq_some_iff.mp h
      obtain ⟨a, b, rfl, rfl⟩ := ih hn
      exact ⟨c :: a, b, rfl, rfl⟩
    rw [closingBrace?] at h
    split at h
    · exact hstep h
    · split at h
      · rename_i hc
        split at h
        · cases h
          exact ⟨[], m, by rw [hc]; rfl, rfl⟩
        · exact hstep h
      · exact hstep h

/-- A member ends with a mark. -/
theorem mark_of_extent? {m : Text} {e : Extent} (h : extent? m = some e) :
    ∃ a d b, m = a ++ d :: b ∧ e.size = a.length + 1 ∧ isMark d = true := by
  have hfrom : ∀ (m : Text) (openers : List Char) (block : Option Nat) (pos : Nat),
      extentFrom openers block pos m = some e →
        ∃ a d b, m = a ++ d :: b ∧ e.size = pos + a.length + 1 ∧ isMark d = true := by
    intro m
    induction m with
    | nil => intro openers block pos h; cases h
    | cons c m ih =>
      intro openers block pos h
      have hstep : ∀ {openers block}, extentFrom openers block (pos + 1) m = some e →
          ∃ a d b, c :: m = a ++ d :: b ∧ e.size = pos + a.length + 1 ∧ isMark d = true := by
        intro openers block h
        obtain ⟨a, d, b, rfl, hsize, hd⟩ := ih openers block (pos + 1) h
        exact ⟨c :: a, d, b, rfl, by rw [hsize, List.length_cons]; omega, hd⟩
      have hhere : isMark c = true → e.size = pos + 1 →
          ∃ a d b, c :: m = a ++ d :: b ∧ e.size = pos + a.length + 1 ∧ isMark d = true :=
        fun hc hsize => ⟨[], c, m, rfl, hsize, hc⟩
      simp only [extentFrom] at h
      split at h
      · exact hstep h
      · split at h
        · split at h
          · cases h
          · split at h
            · cases h
            · split at h
              · rename_i hblock
                cases h
                refine hhere ?_ rfl
                split at hblock
                · rename_i hc
                  rw [Bool.and_eq_true, decide_eq_true_eq] at hc
                  rw [hc.1]
                  decide
                · cases hblock
              · exact hstep h
        · split at h
          · rename_i hc
            rw [Bool.and_eq_true, decide_eq_true_eq] at hc
            cases h
            refine hhere ?_ rfl
            rw [hc.1]
            decide
          · exact hstep h
  simpa using hfrom m [] none 0 h

end EntityScaffold.Source
