import EntityScaffold.Proofs.Source.ClassWords
import EntityScaffold.Proofs.Source.Declared
import EntityScaffold.Proofs.Source.LayoutGaps

/-!
# Imports in front of a class in the file layout

The fourth pass puts a blank line between an import and the class behind it.  Where it has done so,
it does not apply again, and the later passes, which make no gap longer, do not undo it.

* `ClassAhead` — modifiers, each with its blanks, and the word `class`; `beginsClass_respaced`.
* `Replaced.idle_imports` — behind the pass its rule applies nowhere.
* `Idle.imports_respaced` — nor does it after the later passes.
-/

set_option autoImplicit false

namespace EntityScaffold.Source

open Text

variable {grows : Bool} {prev : Option Char} {s t u : Text}

/-! ## Where a class begins -/

/-- The text begins with the word `class`, perhaps behind modifiers. -/
inductive ClassAhead : Text → Prop where
  | word {t : Text} (h : beginsWithWord "class" t = true) : ClassAhead t
  | step {t r : Text} (modifier : keyword? classModifiers t = some r) (h : ClassAhead r) :
      ClassAhead t

theorem eq_of_keyword? {t r : Text} (h : keyword? classModifiers t = some r) :
    ∃ w ∈ classModifiers, ∃ v, t = w ++ v ∧ blanks? v = some r := by
  obtain ⟨w, hw, h⟩ := List.exists_of_findSome?_eq_some h
  obtain ⟨v, hv, hr⟩ := Option.bind_eq_some_iff.mp h
  exact ⟨w, hw, v, eq_append_of_after? hv, hr⟩

theorem keyword?_append {w v r : Text} (hw : w ∈ classModifiers) (hv : blanks? v = some r) :
    keyword? classModifiers (w ++ v) = some r := by
  have hfound : (after? w (w ++ v)).bind blanks? = some r := by
    rw [after?_append, Option.bind_some, hv]
  simp only [classModifiers, List.mem_cons, List.not_mem_nil, or_false] at hw
  rw [keyword?, classModifiers]
  rcases hw with rfl | rfl | rfl
  · rw [List.findSome?_cons, hfound]
  · rw [List.findSome?_cons, show after? "final" ("abstract" ++ v) = none from rfl,
      List.findSome?_cons, hfound]
    rfl
  · rw [List.findSome?_cons, show after? "final" ("readonly" ++ v) = none from rfl,
      List.findSome?_cons, show after? "abstract" ("readonly" ++ v) = none from rfl,
      List.findSome?_cons, hfound]
    rfl

theorem eq_of_beginsWithWord {word t : Text} (h : beginsWithWord word t = true) :
    ∃ v, t = word ++ v ∧ v.head?.any isWord = false := by
  rw [beginsWithWord, Option.any_eq_true_iff_get] at h
  obtain ⟨hsome, h⟩ := h
  refine ⟨(after? word t).get hsome, eq_append_of_after? (Option.some_get hsome).symm, ?_⟩
  simpa using h

theorem beginsWithWord_append {word v : Text} (h : v.head?.any isWord = false) :
    beginsWithWord word (word ++ v) = true := by
  rw [beginsWithWord, after?_append, Option.any_some, h, Bool.not_false]

/-- The modifiers are passed over one by one. -/
theorem classAhead_iff : beginsWithWord "class" (steps (keyword? classModifiers) t) = true ↔
    ClassAhead t := by
  constructor
  · have hwith : ∀ fuel t, beginsWithWord "class" (stepsWith (keyword? classModifiers) fuel t) = true →
        ClassAhead t := by
      intro fuel
      induction fuel with
      | zero => exact fun t h => .word h
      | succ fuel ih =>
        intro t h
        rw [stepsWith] at h
        cases hkey : keyword? classModifiers t with
        | none =>
          rw [hkey] at h
          exact .word h
        | some r =>
          rw [hkey] at h
          exact .step hkey (ih r h)
    exact hwith t.length t
  · have hwith : ClassAhead t → ∀ fuel, t.length ≤ fuel →
        beginsWithWord "class" (stepsWith (keyword? classModifiers) fuel t) = true := by
      intro h
      induction h with
      | @word t h =>
        intro fuel _
        cases fuel with
        | zero => exact h
        | succ fuel =>
          obtain ⟨v, rfl, hv⟩ := eq_of_beginsWithWord h
          have hnone : keyword? classModifiers ("class" ++ v) = none := rfl
          rw [stepsWith, hnone]
          exact h
      | @step t r modifier _ ih =>
        intro fuel hfuel
        obtain ⟨a, b, ht, -⟩ := blank_of_keyword? modifier
        have hlen : t.length = a.length + (r.length + 1) := by rw [ht, List.length_append, List.length_cons]
        obtain ⟨fuel, rfl⟩ : ∃ n, fuel = n + 1 := ⟨fuel - 1, by omega⟩
        rw [stepsWith, modifier]
        exact ih fuel (by omega)
    exact fun h => hwith h t.length (Nat.le_refl _)

theorem ClassAhead.ne_nil (h : ClassAhead t) : t ≠ [] := by
  rintro rfl
  cases h with
  | word h => cases h
  | step modifier => cases modifier

/-- The first letter is that of the word or of a modifier. -/
theorem ClassAhead.head (h : ClassAhead t) : ∀ c ∈ t.head?, isLayout c = false := by
  have hfirst : ∀ w ∈ ("class" : Text) :: classModifiers, w ≠ [] ∧ ∀ c ∈ w.head?, isLayout c = false := by
    decide
  have hword : ∀ w ∈ ("class" : Text) :: classModifiers, ∀ v : Text, ∀ c ∈ (w ++ v).head?,
      isLayout c = false := by
    intro w hw v c hc
    obtain ⟨hne, hlayout⟩ := hfirst w hw
    obtain ⟨d, w, rfl⟩ := List.exists_cons_of_ne_nil hne
    exact hlayout c hc
  cases h with
  | word h =>
    obtain ⟨v, rfl, -⟩ := eq_of_beginsWithWord h
    exact hword "class" List.mem_cons_self v
  | step modifier =>
    obtain ⟨w, hw, v, rfl, -⟩ := eq_of_keyword? modifier
    exact hword w (List.mem_cons_of_mem _ hw) v

theorem ClassAhead.respaced (h : Respaced grows s t) (ht : ClassAhead t) : ClassAhead s := by
  induction ht generalizing s with
  | word hclass =>
    obtain ⟨v, rfl, hv⟩ := eq_of_beginsWithWord hclass
    obtain ⟨w, rfl, hw⟩ := h.of_append_new (by decide)
    rw [← hw.isWord_head] at hv
    exact .word (beginsWithWord_append hv)
  | @step t r modifier hr ih =>
    obtain ⟨w, hmem, v, rfl, hv⟩ := eq_of_keyword? modifier
    have hline : ∀ w ∈ classModifiers, '\n' ∉ w := by decide
    obtain ⟨v', rfl, hv'⟩ := h.of_append_new (hline w hmem)
    obtain ⟨b, v, rfl, hb⟩ := eq_cons_of_blanks? hv
    have hrest : r = (b :: v).dropWhile isBlank := by
      rw [blanks?, if_pos hb, Option.some.injEq] at hv
      rw [← hv, List.dropWhile_cons_of_pos hb]
    have hdropped := hv'.dropWhile_isBlank
    rw [← hrest] at hdropped
    cases v' with
    | nil =>
      -- nothing but line feeds would stand behind the modifier
      obtain ⟨n, hn⟩ := hv'.of_nil
      have hnil : r = [] := by
        rw [hrest, hn]
        exact List.dropWhile_eq_nil_iff.mpr (isBlank_of_mem_feeds n)
      exact absurd hnil hr.ne_nil
    | cons d v' =>
      have hd : isBlank d = true := by simpa [hb] using hv'.isBlank_head
      refine .step (keyword?_append hmem ?_) (ih hdropped)
      rw [blanks?, if_pos hd, List.dropWhile_cons_of_pos hd]

theorem startsWith_append (p t : Text) : startsWith p (p ++ t) = true := by
  rw [startsWith, after?_append]
  rfl

/-- What a class begins with: an attribute, a doc comment, or a header. -/
theorem beginsClass_iff : beginsClass t = true ↔ ∃ x u, t = x ++ u ∧
    (∀ c ∈ x, isSpaceTab c = true) ∧ ((∃ v, u = "#[" ++ v) ∨ (∃ v, u = "/**" ++ v) ∨ ClassAhead u) := by
  have hstart : ∀ {p u : Text}, startsWith p u = true → ∃ v, u = p ++ v := by
    intro p u h
    obtain ⟨v, hv⟩ := Option.isSome_iff_exists.mp h
    exact ⟨v, eq_append_of_after? hv⟩
  rw [beginsClass]
  simp only [Bool.or_eq_true, classAhead_iff]
  constructor
  · intro h
    refine ⟨t.takeWhile isSpaceTab, t.dropWhile isSpaceTab, List.takeWhile_append_dropWhile.symm,
      fun c hc => List.all_eq_true.mp List.all_takeWhile c hc, ?_⟩
    rcases h with (h | h) | h
    exacts [.inl (hstart h), .inr (.inl (hstart h)), .inr (.inr h)]
  · rintro ⟨x, u, rfl, hx, h⟩
    have hdrop : (x ++ u).dropWhile isSpaceTab = u := by
      refine dropWhile_spaces hx fun c hc => ?_
      have hlayout : isLayout c = false → isSpaceTab c = false := by
        intro hc
        rw [isLayout, Bool.or_eq_false_iff] at hc
        exact hc.2
      rcases h with ⟨v, rfl⟩ | ⟨v, rfl⟩ | h
      · obtain rfl := Option.some.inj hc
        decide
      · obtain rfl := Option.some.inj hc
        decide
      · exact hlayout (h.head c hc)
    rw [hdrop]
    rcases h with ⟨v, rfl⟩ | ⟨v, rfl⟩ | h
    exacts [.inl (.inl (startsWith_append _ v)), .inl (.inr (startsWith_append _ v)), .inr h]

/-- **Where a class begins in the respaced text, one did before.** -/
theorem beginsClass_respaced (h : Respaced grows s t) (ht : beginsClass t = true) :
    beginsClass s = true := by
  obtain ⟨x, u, rfl, hx, hu⟩ := beginsClass_iff.mp ht
  obtain ⟨s, rfl, hs⟩ := h.of_append_new (notMem_of_spaceTabs hx)
  refine beginsClass_iff.mpr ⟨x, s, rfl, hx, ?_⟩
  rcases hu with ⟨v, rfl⟩ | ⟨v, rfl⟩ | hclass
  · obtain ⟨w, rfl, -⟩ := hs.of_append_new (by decide)
    exact .inl ⟨w, rfl⟩
  · obtain ⟨w, rfl, -⟩ := hs.of_append_new (by decide)
    exact .inr (.inl ⟨w, rfl⟩)
  · exact .inr (.inr (hclass.respaced hs))

/-- No class begins at the end of a line. -/
theorem beginsClass_lineFeed (t : Text) : beginsClass ('\n' :: t) = false := by
  rw [Bool.eq_false_iff]
  intro h
  obtain ⟨x, u, heq, hx, hu⟩ := beginsClass_iff.mp h
  cases x with
  | cons c x =>
    obtain rfl : '\n' = c := (List.cons.inj heq).1
    exact Bool.noConfusion (hx '\n' List.mem_cons_self)
  | nil =>
    obtain rfl : '\n' :: t = u := heq
    rcases hu with ⟨v, hv⟩ | ⟨v, hv⟩ | hclass
    · exact absurd (List.cons.inj hv).1 (by decide)
    · exact absurd (List.cons.inj hv).1 (by decide)
    · exact Bool.noConfusion (hclass.head '\n' rfl)

/-! ## Where the rule applies -/

theorem separateImport_eq_none_iff {prev : Option Char} : separateImport prev t = none ↔
    ∀ rest, prev.all (· == '\n') = true → importLine? t = some rest → beginsClass rest = false := by
  rw [separateImport]
  split
  · rename_i hprev
    cases himport : importLine? t with
    | none => simp
    | some rest =>
      cases hclass : beginsClass rest with
      | true => simp [hclass, hprev]
      | false => simp [hclass]
  · rename_i hprev
    simp [hprev]

theorem separateImport_of_ne {c : Char} (hc : c ≠ 'u') (p : Option Char) (t : Text) :
    separateImport p (c :: t) = none := by
  refine separateImport_eq_none_iff.mpr fun rest _ himport => ?_
  obtain ⟨x, y, heq, -⟩ := importLine?_eq_some_iff.mp himport
  exact absurd (List.cons.inj heq).1 hc

/-- The rule does not apply in front of a blank line. -/
theorem separateImport_of_blankLine {a y : Text} (ha : ';' ∉ a) (hy : ∀ c ∈ y, isSpaceTab c = true)
    (p : Option Char) (t : Text) : separateImport p (a ++ ';' :: (y ++ (feeds 2 ++ t))) = none := by
  refine separateImport_eq_none_iff.mpr fun rest _ himport => ?_
  obtain ⟨x, z, heq, hx, -, -, hz⟩ := importLine?_eq_some_iff.mp himport
  have huse : ';' ∉ ("use" : Text) ++ x := by
    rw [List.mem_append, not_or]
    exact ⟨by decide, hx⟩
  rw [← List.append_assoc "use".toList] at heq
  obtain ⟨-, hbehind⟩ := append_first_inj ha huse heq
  obtain ⟨-, rfl⟩ := append_first_inj (notMem_of_spaceTabs hy) (notMem_of_spaceTabs hz) hbehind
  exact beginsClass_lineFeed t

/-- Up to the first semicolon the pass changes nothing; behind it, either the pass goes on, or a blank
line has been put there. -/
theorem Replaced.upTo_semicolon {x v : Text} (hx : ';' ∉ x)
    (h : Replaced separateImport prev s (x ++ ';' :: v)) : ∃ w, s = x ++ ';' :: w ∧
      (Replaced separateImport (some ';') w v ∨
        ∃ y t, v = y ++ (feeds 2 ++ t) ∧ ∀ c ∈ y, isSpaceTab c = true) := by
  generalize hz : x ++ ';' :: v = z at h
  induction h generalizing x with
  | nil => exact absurd hz (by simp)
  | @keep prev c s t _ rest ih =>
    cases x with
    | nil =>
      obtain ⟨rfl, rfl⟩ := List.cons.inj hz
      exact ⟨s, rfl, .inl rest⟩
    | cons e x =>
      obtain ⟨rfl, rfl⟩ := List.cons.inj hz
      obtain ⟨w, rfl, hw⟩ := ih (fun hm => hx (List.mem_cons_of_mem e hm)) rfl
      exact ⟨w, rfl, hw⟩
  | @swap prev old new s t found _ _ _ =>
    obtain ⟨-, -, -, x', y, hold, rfl, hx', hy⟩ := eq_of_separateImport found
    have huse : ';' ∉ ("use" : Text) ++ x' := by
      rw [List.mem_append, not_or]
      exact ⟨by decide, hx'⟩
    have hnew : "use" ++ (x' ++ ';' :: (y ++ feeds 2)) ++ t =
        ("use" ++ x') ++ ';' :: (y ++ (feeds 2 ++ t)) := by
      simp only [List.append_assoc, List.cons_append]
    rw [hnew] at hz
    obtain ⟨rfl, rfl⟩ := append_first_inj hx huse hz
    refine ⟨y ++ '\n' :: s, ?_, .inr ⟨y, t, rfl, hy⟩⟩
    rw [hold, List.append_assoc]

/-- In and behind a line that has a blank line behind it, the rule applies nowhere. -/
theorem idle_blankLine {a y : Text} (ha : ';' ∉ a) (hy : ∀ c ∈ y, isSpaceTab c = true)
    (ht : Idle separateImport (some '\n') t) (prev : Option Char) :
    Idle separateImport prev (a ++ ';' :: (y ++ (feeds 2 ++ t))) := by
  induction a generalizing prev with
  | cons c a ih =>
    exact ⟨separateImport_of_blankLine ha hy prev t,
      ih (fun hm => ha (List.mem_cons_of_mem c hm)) (some c)⟩
  | nil =>
    have hfree : ∀ c ∈ y ++ feeds 2, c ≠ 'u' := by
      rintro c hc rfl
      rcases List.mem_append.mp hc with hc | hc
      · exact Bool.noConfusion (hy 'u' hc)
      · exact absurd (eq_of_mem_feeds hc) (by decide)
    have hlast : (y ++ feeds 2).getLast? = some '\n' := by
      rw [List.getLast?_append, getLast?_feeds, Option.some_or]
    refine ⟨separateImport_of_ne (by decide) prev _, ?_⟩
    rw [← List.append_assoc]
    refine Throughout.append (fun p c u hc => separateImport_of_ne (hfree c hc) p u) ?_
    rw [hlast, Option.some_or]
    exact ht

theorem use_append (t : Text) : ("use" : Text) ++ t = 'u' :: ("se" ++ t) := rfl

/-- **Behind the pass its rule applies nowhere.** -/
theorem Replaced.idle_imports (h : Replaced separateImport prev s t) :
    Idle separateImport prev t := by
  have hnew : ∀ p u new v, separateImport p u = some (new, v) → new.head? = some 'u' := by
    intro p u new v hfound
    obtain ⟨-, -, -, x, y, -, rfl, -, -⟩ := eq_of_separateImport hfound
    rfl
  induction h with
  | nil => trivial
  | @keep prev c s t stays rest ih =>
    refine ⟨separateImport_eq_none_iff.mpr fun behind hprev himport => ?_, ih⟩
    rw [← Bool.not_eq_true]
    intro hclass
    obtain ⟨x, y, heq, hx, hhead, hlen, hy⟩ := importLine?_eq_some_iff.mp himport
    rw [use_append] at heq
    obtain ⟨rfl, rfl⟩ := List.cons.inj heq
    have hse : ';' ∉ ("se" : Text) ++ x := by
      rw [List.mem_append, not_or]
      exact ⟨by decide, hx⟩
    rw [← List.append_assoc] at rest
    obtain ⟨w, rfl, hw | ⟨z, t, hz, hspaces⟩⟩ := rest.upTo_semicolon hse
    · -- the import stood there before, and a class behind it
      have hfree : 'u' ∉ y ++ ['\n'] := by
        intro hm
        rcases List.mem_append.mp hm with hm | hm
        · exact Bool.noConfusion (hy 'u' hm)
        · exact absurd (List.mem_singleton.mp hm) (by decide)
      rw [List.append_cons] at hw
      obtain ⟨w, rfl, hbehind⟩ := hw.of_append_new hnew hfree
      have hbefore : importLine? ('u' :: ("se" ++ x ++ ';' :: (y ++ ['\n'] ++ w))) = some w := by
        refine importLine?_eq_some_iff.mpr ⟨x, y, ?_, hx, hhead, hlen, hy⟩
        rw [use_append, ← List.append_assoc, ← List.append_cons]
      have hnone := separateImport_eq_none_iff.mp stays w hprev hbefore
      rw [beginsClass_respaced (hbehind.respaced fillsGaps_separateImport) hclass] at hnone
      cases hnone
    · rw [show feeds 2 ++ t = '\n' :: '\n' :: t from rfl] at hz
      obtain ⟨-, rfl⟩ := append_first_inj (notMem_of_spaceTabs hy) (notMem_of_spaceTabs hspaces) hz
      rw [beginsClass_lineFeed] at hclass
      cases hclass
  | @swap prev old new s t found _ _ ih =>
    obtain ⟨-, -, -, x, y, hold, rfl, hx, hy⟩ := eq_of_separateImport found
    have hline : old = "use" ++ (x ++ ';' :: y) ++ ['\n'] := by
      refine List.append_cancel_right (hold.trans ?_)
      simp only [List.append_assoc, List.cons_append, List.nil_append]
    have huse : ';' ∉ ("use" : Text) ++ x := by
      rw [List.mem_append, not_or]
      exact ⟨by decide, hx⟩
    rw [hline, List.getLast?_append, List.getLast?_singleton, Option.some_or, Option.some_or] at ih
    have hidle := idle_blankLine huse hy ih prev
    simp only [List.append_assoc, List.cons_append] at hidle ⊢
    exact hidle

/-- **A later pass**, which makes no gap longer, does not make the rule apply. -/
theorem Idle.imports_respaced (h : Respaced false s t) (hs : Idle separateImport prev s) :
    Idle separateImport prev t := by
  refine Throughout.respaced (fun p u => separateImport_of_ne (by decide) p u) ?_ h hs
  intro p c u v huv hnone
  refine separateImport_eq_none_iff.mpr fun behind hprev himport => ?_
  rw [← Bool.not_eq_true]
  intro hclass
  obtain ⟨x, y, heq, hx, hhead, hlen, hy⟩ := importLine?_eq_some_iff.mp himport
  have hspaced : Respaced false (c :: u) (c :: v) := .char c huv
  rw [heq] at hspaced
  obtain ⟨s₁, hs₁, h₁⟩ := hspaced.of_append_new (by decide)
  obtain ⟨x', s₂, rfl, hx', hlen', hhead', h₂⟩ := h₁.upTo (by decide) hx
  obtain ⟨s₃, rfl, h₃⟩ := h₂.of_append_new (notMem_of_spaceTabs hy)
  have hbehind : behind ≠ [] ∧ behind.head? ≠ some '\n' := by
    constructor
    · rintro rfl
      cases hclass
    · intro hfeed
      obtain ⟨d, r, rfl⟩ : ∃ d r, behind = d :: r := List.exists_cons_of_ne_nil (by
        rintro rfl
        cases hfeed)
      rw [Option.some.inj hfeed, beginsClass_lineFeed] at hclass
      cases hclass
  obtain ⟨z, s₄, rfl, hz, h₄⟩ := h₃.of_lineFeed_new hbehind.1 hbehind.2
  have hbefore : importLine? (c :: u) = some s₄ := by
    refine importLine?_eq_some_iff.mpr ⟨x', y ++ z, ?_, hx', hhead' hhead, by omega, fun d hd => ?_⟩
    · rw [hs₁, List.append_assoc]
    · exact (List.mem_append.mp hd).elim (hy d) (hz d)
  have hclear := separateImport_eq_none_iff.mp hnone s₄ hprev hbefore
  rw [beginsClass_respaced h₄ hclass] at hclear
  cases hclear

end EntityScaffold.Source
