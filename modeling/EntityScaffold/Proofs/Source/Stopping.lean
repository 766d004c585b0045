import EntityScaffold.Source.Declaration

/-!
# Scanners that stop

A recogniser that does not accept a character reads the same off the text in front of that character
whatever follows it.

* `StopsAt` — such recognisers; `StopsAt.bind` puts them one behind the other.
* `stopsAt_after?`, `stopsAt_blanks?`, `stopsAt_keyword?`, `steps_stop`, `name?_stop` — those of
  which declarations are recognised.
-/

set_option autoImplicit false

namespace EntityScaffold.Source

open Text

/-- What `f` reads off the text in front of the character does not depend on what follows it. -/
def StopsAt (d : Char) (f : Text → Option Text) : Prop :=
  ∀ s, (∀ u, f (s ++ d :: u) = none) ∨ ∃ s', ∀ u, f (s ++ d :: u) = some (s' ++ d :: u)

section

variable {d : Char}

theorem stopsAt_after? {p : Text} (hp : d ∉ p) : StopsAt d (after? p) := by
  induction p with
  | nil => exact fun s => .inr ⟨s, fun u => rfl⟩
  | cons c p ih =>
    simp only [List.mem_cons, not_or] at hp
    intro s
    cases s with
    | nil => exact .inl fun u => if_neg (Ne.symm hp.1)
    | cons e s =>
      by_cases hce : c = e
      · simpa [after?, hce] using ih hp.2 s
      · exact .inl fun u => if_neg hce

theorem dropWhile_append_stop {p : Char → Bool} (hp : p d = false) (s u : Text) :
    (s ++ d :: u).dropWhile p = s.dropWhile p ++ d :: u := by
  induction s with
  | nil => simp [hp]
  | cons c s ih =>
    rw [List.cons_append, List.dropWhile_cons, List.dropWhile_cons]
    split
    · exact ih
    · rfl

theorem stopsAt_blanks? (hd : isBlank d = false) : StopsAt d blanks? := by
  intro s
  cases s with
  | nil => exact .inl fun u => if_neg (by simp [hd])
  | cons c s =>
    by_cases hc : isBlank c = true
    · refine .inr ⟨s.dropWhile isBlank, fun u => ?_⟩
      rw [List.cons_append, blanks?, if_pos hc, dropWhile_append_stop hd]
    · exact .inl fun u => if_neg hc

theorem StopsAt.bind {f g : Text → Option Text} (hf : StopsAt d f) (hg : StopsAt d g) :
    StopsAt d fun t => (f t).bind g := by
  intro s
  rcases hf s with hnone | ⟨s', hs'⟩
  · exact .inl fun u => by simp only [hnone, Option.bind_none]
  · rcases hg s' with hnone | ⟨s'', hs''⟩
    · exact .inl fun u => by simp only [hs', Option.bind_some, hnone]
    · exact .inr ⟨s'', fun u => by simp only [hs', Option.bind_some, hs'']⟩

theorem stopsAt_keyword? (hd : isBlank d = false) {keywords : List Text}
    (h : ∀ w ∈ keywords, d ∉ w) : StopsAt d (keyword? keywords) := by
  induction keywords with
  | nil => exact fun s => .inl fun u => rfl
  | cons w ws ih =>
    intro s
    have hw := (stopsAt_after? (h w (by simp))).bind (stopsAt_blanks? hd) s
    have hcons : ∀ t, keyword? (w :: ws) t = ((after? w t).bind blanks?).or (keyword? ws t) := by
      intro t
      rw [keyword?, List.findSome?_cons]
      cases (after? w t).bind blanks? <;> rfl
    simp only at hw
    simp only [hcons]
    rcases hw with hnone | ⟨s', hs'⟩
    · simp only [hnone, Option.none_or]
      exact ih (fun v hv => h v (by simp [hv])) s
    · exact .inr ⟨s', fun u => by simp only [hs', Option.some_or]⟩

theorem steps_stop {step : Text → Option Text} (h : StopsAt d step)
    (hshort : ∀ t r, step t = some r → r.length < t.length) (s : Text) :
    ∃ s', ∀ u, steps step (s ++ d :: u) = s' ++ d :: u := by
  -- the fuel is more than there are characters in front of the one to stop at
  have hwith : ∀ n (s : Text), s.length ≤ n →
      ∃ s', ∀ u fuel, s.length < fuel →
        stepsWith step fuel (s ++ d :: u) = s' ++ d :: u := by
    intro n
    induction n with
    | zero =>
      intro s hs
      obtain rfl : s = [] := List.length_eq_zero_iff.mp (by omega)
      refine ⟨[], fun u fuel hfuel => ?_⟩
      obtain ⟨fuel, rfl⟩ : ∃ k, fuel = k + 1 := ⟨fuel - 1, by simp at hfuel; omega⟩
      rcases h [] with hnone | ⟨s', hs'⟩
      · rw [stepsWith, hnone]
      · have := hshort _ _ (hs' u)
        simp only [List.length_append, List.length_cons, List.nil_append] at this
        omega
    | succ n ih =>
      intro s hs
      rcases h s with hnone | ⟨s', hs'⟩
      · refine ⟨s, fun u fuel hfuel => ?_⟩
        obtain ⟨fuel, rfl⟩ : ∃ k, fuel = k + 1 := ⟨fuel - 1, by omega⟩
        rw [stepsWith, hnone]
      · have hlt : s'.length < s.length := by
          have := hshort _ _ (hs' [])
          simpa using this
        obtain ⟨s'', hs''⟩ := ih s' (by omega)
        refine ⟨s'', fun u fuel hfuel => ?_⟩
        obtain ⟨fuel, rfl⟩ : ∃ k, fuel = k + 1 := ⟨fuel - 1, by omega⟩
        rw [stepsWith, hs']
        exact hs'' u fuel (by omega)
  obtain ⟨s', hs'⟩ := hwith s.length s (Nat.le_refl _)
  exact ⟨s', fun u => hs' u _ (by simp)⟩

theorem name?_stop (hstart : isNameStart d = false) (hd : isWord d = false) (s : Text) :
    (∀ u, name? (s ++ d :: u) = none) ∨
      ∃ name s', ∀ u, name? (s ++ d :: u) = some (name, s' ++ d :: u) := by
  cases s with
  | nil => exact .inl fun u => if_neg (by simp [hstart])
  | cons c s =>
    by_cases hc : isNameStart c = true
    · refine .inr ⟨c :: s.takeWhile isWord, s.dropWhile isWord, fun u => ?_⟩
      have htake : (s ++ d :: u).takeWhile isWord = s.takeWhile isWord := by
        rw [List.takeWhile_append]
        split
        · rename_i hall
          rw [List.takeWhile_cons_of_neg (by simp [hd]), List.append_nil,
            (List.takeWhile_prefix isWord).eq_of_length hall]
        · rfl
      rw [List.cons_append, name?, if_pos hc, htake, dropWhile_append_stop hd]
    · exact .inl fun u => if_neg hc

end

end EntityScaffold.Source
