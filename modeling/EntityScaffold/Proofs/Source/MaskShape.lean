import EntityScaffold.Proofs.Source.ParseRender
import Mathlib.Data.List.Forall2

/-!
# The shape of a mask

A mask lies over its text place by place, so that what is found in the mask is found in the text.  And
wherever it shows a semicolon or a brace, reading stands where it began: the text may be cut there, and
the parts have the parts of the mask.

* `Veils`, `veils_mask` — what a mask may show in the place of a character, and that it does.
* `mask_append_iff`, `mask_flatten_iff` — cutting behind one visible mark, and behind any number.
* `mask_shape` — both of it, by positions.
-/

set_option autoImplicit false

namespace EntityScaffold.Source

open Text

/-! ## Place by place -/

/-- A character and what a mask shows in its place: the character, or a space unless it is a line
feed. -/
def Veils (c d : Char) : Prop := d = c ∨ c ≠ '\n' ∧ d = ' '

theorem veils_refl (t : Text) : List.Forall₂ Veils t t :=
  List.forall₂_same.mpr fun _ _ => .inl rfl

theorem veils_hide (t : Text) : List.Forall₂ Veils t (hide t) := by
  rw [hide, List.forall₂_map_right_iff, List.forall₂_same]
  intro c _
  by_cases hc : c = '\n'
  · exact .inl (by rw [if_pos hc, hc])
  · exact .inr ⟨hc, if_neg hc⟩

/-- What is shown of a lexeme lies over it. -/
theorem Lexeme.veils (l : Lexeme) : List.Forall₂ Veils l.text l.shown := by
  cases l with
  | code t => exact veils_refl t
  | literal q body => exact .cons (.inl rfl) (List.rel_append (veils_hide body) (veils_refl [q]))
  | block body => exact veils_hide _
  | remark t => exact veils_hide t
  | heredoc opening body closing =>
    exact List.rel_append (List.rel_append (veils_refl opening) (veils_hide body))
      (veils_refl closing)

section

variable {s t m : Text}

/-- **A mask lies over its text.** -/
theorem veils_mask (h : mask t = .ok m) : List.Forall₂ Veils t m := by
  rw [mask] at h
  cases hls : lexemes t with
  | error e => simp [hls, Except.map] at h
  | ok ls =>
    simp only [hls, Except.map, Except.ok.injEq] at h
    subst h
    rw [← text_of_lexemes hls]
    clear hls
    induction ls with
    | nil => exact .nil
    | cons l ls ih => exact List.rel_append l.veils ih

theorem getElem?_of_veils (h : List.Forall₂ Veils t m) (i : Nat) :
    (m[i]? = some '\n' ↔ t[i]? = some '\n') ∧ (m[i]? = t[i]? ∨ m[i]? = some ' ') := by
  induction h generalizing i with
  | nil => simp
  | @cons c d t m hcd _ ih =>
    cases i with
    | succ i => simpa using ih i
    | zero =>
      simp only [List.getElem?_cons_zero, Option.some.injEq]
      rcases hcd with rfl | ⟨hc, rfl⟩
      · exact ⟨.rfl, .inl rfl⟩
      · exact ⟨iff_of_false (by decide) hc, .inr rfl⟩

/-! ## Cutting -/

/-- **Behind a mark that is shown, reading begins anew**: a text whose mask shows one there has the mask
that is put together from those of its parts. -/
theorem mask_append_iff {ms mt : Text} {d : Char} (hd : isMark d = true)
    (hlen : (ms ++ [d]).length = s.length) :
    mask (s ++ t) = .ok (ms ++ [d] ++ mt) ↔ mask s = .ok (ms ++ [d]) ∧ mask t = .ok mt := by
  obtain ⟨a, e, rfl⟩ : ∃ a e, s = a ++ [e] := by
    refine (List.eq_nil_or_concat' s).resolve_left ?_
    rintro rfl
    simp at hlen
  have hfront : ms.length = a.length := by simpa using hlen
  constructor
  · intro h
    rw [List.append_assoc, List.append_assoc] at h
    obtain ⟨rfl, hshows, ht⟩ := mask_cut h hfront hd
    exact ⟨mask_of_shows hshows, ht⟩
  · rintro ⟨hs, ht⟩
    obtain ⟨rfl, hshows, -⟩ := mask_cut hs hfront hd
    exact mask_append hshows ht

/-- **A text may be cut behind any number of marks that are shown**, and texts whose masks end in marks
may be put together. -/
theorem mask_flatten_iff {ss ms : List Text} {mt : Text}
    (hlen : List.Forall₂ (fun s m => m.length = s.length) ss ms)
    (hms : ∀ m ∈ ms, m.getLast?.any isMark = true) :
    mask (ss.flatten ++ t) = .ok (ms.flatten ++ mt) ↔
      List.Forall₂ (fun s m => mask s = .ok m) ss ms ∧ mask t = .ok mt := by
  induction hlen with
  | nil => simp
  | @cons s m ss ms hsize _ ih =>
    have hm := hms m List.mem_cons_self
    obtain ⟨a, d, rfl⟩ : ∃ a d, m = a ++ [d] := by
      refine (List.eq_nil_or_concat' m).resolve_left ?_
      rintro rfl
      cases hm
    have hd : isMark d = true := by simpa using hm
    rw [List.flatten_cons, List.flatten_cons, List.append_assoc, List.append_assoc,
      mask_append_iff hd hsize, ih fun m hm => hms m (List.mem_cons_of_mem _ hm),
      List.forall₂_cons, and_assoc]

/-! ## By positions -/

/-- **A mask keeps the shape of its text, and may be cut behind every mark that it shows.**  It is as
long as the text, has line feeds where the text has them, and shows the text's character or a space
elsewhere; and behind a semicolon or a brace in it, the text falls into two parts whose masks are the
two parts of it. -/
theorem mask_shape (h : mask t = .ok m) :
    m.length = t.length ∧ (∀ i : Nat, m[i]? = some '\n' ↔ t[i]? = some '\n') ∧
      (∀ i : Nat, m[i]? = t[i]? ∨ m[i]? = some ' ') ∧
      ∀ (i : Nat) (d : Char), m[i]? = some d → isMark d = true → ∃ before behind,
        mask (t.take (i + 1)) = .ok before ∧ mask (t.drop (i + 1)) = .ok behind ∧
          before ++ behind = m := by
  have hveils := fun i => getElem?_of_veils (veils_mask h) i
  refine ⟨length_mask h, fun i => (hveils i).1, fun i => (hveils i).2, fun i d hd hmark => ?_⟩
  obtain ⟨hi, rfl⟩ := List.getElem?_eq_some_iff.mp hd
  have hlen : (m.take i ++ [m[i]]).length = (t.take (i + 1)).length := by
    rw [List.take_append_getElem, List.length_take, List.length_take, length_mask h]
  have hcut : mask (t.take (i + 1) ++ t.drop (i + 1)) =
      .ok (m.take i ++ [m[i]] ++ m.drop (i + 1)) ↔ _ := mask_append_iff hmark hlen
  rw [List.take_append_drop, List.take_append_getElem, List.take_append_drop] at hcut
  obtain ⟨hbefore, hbehind⟩ := hcut.mp h
  exact ⟨m.take (i + 1), m.drop (i + 1), hbefore, hbehind, List.take_append_drop ..⟩

/-- Marks within a string, a comment and a heredoc, and three that are shown. -/
theorem mask_shape_of_script :
    let t : Text := "#[A]\nf(';\\''); // \x7d\n$x = <<<X\n;\nX;\x7d\n"
    let m : Text := "#[A]\nf('   ');     \n$x = <<<X\n \nX;\x7d\n"
    mask t = .ok m ∧
      m.length = t.length ∧ (∀ i : Nat, m[i]? = some '\n' ↔ t[i]? = some '\n') ∧
        (∀ i : Nat, m[i]? = t[i]? ∨ m[i]? = some ' ') ∧
        ∀ (i : Nat) (d : Char), m[i]? = some d → isMark d = true → ∃ before behind,
          mask (t.take (i + 1)) = .ok before ∧ mask (t.drop (i + 1)) = .ok behind ∧
            before ++ behind = m := by
  intro t m
  have h : mask t = .ok m := by decide +kernel
  exact ⟨h, mask_shape h⟩

end

end EntityScaffold.Source
