import Mathlib.Data.List.Chain
import EntityScaffold.Proofs.Source.KeptLayout
import EntityScaffold.Proofs.Text.Lines

/-!
# Texts that are in layout

A file whose lines are as `normalizeWhitespace` would put them is left as it is.

* `replaceFrom_eq_self` — a rule that applies nowhere replaces nothing.
* `equalRun` — reads a text as long as no equals sign has the digit one behind it, so that no
  declaration of strict types begins there.
* `Laid` — the lines of a file in layout.
* `normalizeWhitespace_of_laid` — such a file stays.
-/

set_option autoImplicit false

namespace EntityScaffold.Source

open Text

/-! ## Rules that do not apply -/

/-- A rule that applies nowhere replaces nothing. -/
theorem replaceFrom_eq_self {rule : Replacement} {t : Text} (prev : Option Char)
    (h : ∀ a c b p, t = a ++ c :: b → (a = [] → p = prev) → (a ≠ [] → p = a.getLast?) →
      rule p (c :: b) = none) : replaceFrom rule prev 0 t = t := by
  induction t generalizing prev with
  | nil => rfl
  | cons c t ih =>
    have hc : rule prev (c :: t) = none := h [] c t prev rfl (fun _ => rfl) fun hne => absurd rfl hne
    rw [replaceFrom, hc]
    simp only
    rw [ih (some c)]
    intro a d b p hab hnil hcons
    refine h (c :: a) d b p (by simp [hab]) (fun hne => by cases hne) fun _ => ?_
    cases a with
    | nil => simpa using hnil rfl
    | cons e a => simpa using hcons (by simp)

/-- The characters of a place that has been replaced are passed over. -/
theorem replaceFrom_skip {rule : Replacement} {v w : Text} (s : Text)
    (h : ∀ prev, replaceFrom rule prev 0 v = w) (prev : Option Char) :
    replaceFrom rule prev s.length (s ++ v) = w := by
  induction s generalizing prev with
  | nil => exact h prev
  | cons c s ih =>
    rw [List.cons_append, List.length_cons, replaceFrom]
    exact ih (some c)

/-- A place where the rule applies and writes what stands there. -/
theorem replaceFrom_found {rule : Replacement} {c : Char} {s v : Text} {prev : Option Char}
    (hrule : rule prev (c :: s ++ v) = some (c :: s, v))
    (h : ∀ prev, replaceFrom rule prev 0 v = v) :
    replaceFrom rule prev 0 (c :: s ++ v) = c :: s ++ v := by
  rw [List.cons_append] at hrule
  rw [List.cons_append, replaceFrom, hrule]
  have hskip := replaceFrom_skip s h (some c)
  simp only [List.length_append, Nat.add_sub_cancel]
  rw [hskip, List.cons_append]

/-- Characters at which the rule does not apply are passed over. -/
theorem replaceFrom_append {rule : Replacement} {s v : Text} (prev : Option Char)
    (hrule : ∀ prev c b, (c ∈ s) → rule prev (c :: b) = none)
    (h : ∀ prev, replaceFrom rule prev 0 v = v) : replaceFrom rule prev 0 (s ++ v) = s ++ v := by
  induction s generalizing prev with
  | nil => exact h prev
  | cons c s ih =>
    rw [List.cons_append, replaceFrom, hrule prev c (s ++ v) List.mem_cons_self]
    simp only
    rw [ih (some c) fun p d b hd => hrule p d b (List.mem_cons_of_mem c hd)]

/-! ## The declaration of strict types -/

/-- One more character; `after` tells whether an equals sign and perhaps blanks precede it. -/
def equalStep (after : Bool) (c : Char) : Option Bool :=
  if c = '=' then some true
  else if after then if isBlank c then some true else if c = '1' then none else some false
  else some false

/-- Reads a text in which no equals sign has the digit one behind it. -/
def equalRun (after : Bool) (t : Text) : Option Bool := t.foldlM equalStep after

theorem equalRun_cons (after : Bool) (c : Char) (t : Text) :
    equalRun after (c :: t) = (equalStep after c).bind (equalRun · t) := rfl

theorem equalRun_append (after : Bool) (s t : Text) :
    equalRun after (s ++ t) = (equalRun after s).bind (equalRun · t) := by
  rw [equalRun, List.foldlM_append]
  rfl

theorem equalRun_of_loose {t rest : Text} (h : looseStrictTypes? t = some rest) (after : Bool) :
    equalRun after t = none := by
  simp only [looseStrictTypes?, Option.bind_eq_bind, Option.bind_eq_some_iff] at h
  obtain ⟨t₁, h₁, t₂, h₂, t₃, h₃, t₄, h₄, t₅, h₅, _⟩ := h
  have hone : equalRun true ("1" ++ t₅ : Text) = none := rfl
  -- what stands between the equals sign and the digit is blank
  have hblanks : ∀ b u : Text, (∀ c ∈ b, isBlank c = true) → equalRun true u = none →
      equalRun true (b ++ u) = none := by
    intro b u hb hu
    induction b with
    | nil => exact hu
    | cons c b ih =>
      have hc : equalStep true c = some true := by
        unfold equalStep
        split
        · rfl
        · rw [if_pos rfl, if_pos (hb c (by simp))]
      rw [List.cons_append, equalRun_cons, hc, Option.bind_some]
      exact ih fun d hd => hb d (List.mem_cons_of_mem c hd)
  have hdigit : equalRun true t₄ = none := by
    rw [loosely?, Option.map_eq_some_iff] at h₅
    obtain ⟨u, hu, rfl⟩ := h₅
    rw [eq_append_of_after? hu]
    rfl
  have hequals : ∀ a, equalRun a t₃ = none := by
    intro a
    rw [loosely?, Option.map_eq_some_iff] at h₄
    obtain ⟨u, hu, rfl⟩ := h₄
    rw [eq_append_of_after? hu]
    change equalRun true u = none
    rw [← List.takeWhile_append_dropWhile (p := isBlank) (l := u)]
    exact hblanks _ _ (fun c hc => List.all_eq_true.mp List.all_takeWhile c hc) hdigit
  obtain ⟨b₁, rfl, -⟩ := eq_of_loosely? h₁
  obtain ⟨b₂, rfl, -⟩ := eq_of_loosely? h₂
  obtain ⟨b₃, rfl, -⟩ := eq_of_loosely? h₃
  rw [equalRun_append]
  cases equalRun after ("declare" ++ b₁ : Text) with
  | none => rfl
  | some a =>
    rw [Option.bind_some, equalRun_append]
    cases equalRun a ("(" ++ b₂ : Text) with
    | none => rfl
    | some a =>
      rw [Option.bind_some, equalRun_append]
      cases equalRun a ("strict_types" ++ b₃ : Text) with
      | none => rfl
      | some a => exact hequals a

/-- No declaration of strict types begins anywhere in a text that is read. -/
theorem looseStrictTypes?_of_equalRun {a b : Text} {after after' : Bool}
    (h : equalRun after (a ++ b) = some after') : looseStrictTypes? b = none := by
  cases hb : looseStrictTypes? b with
  | none => rfl
  | some rest =>
    rw [equalRun_append] at h
    cases ha : equalRun after a with
    | none =>
      rw [ha] at h
      cases h
    | some s =>
      rw [ha, Option.bind_some, equalRun_of_loose hb] at h
      cases h

theorem looseStrictTypes?_append (v : Text) :
    looseStrictTypes? (strictTypes ++ v) = some v := rfl

theorem replaceFrom_tighten {v : Text} {after after' : Bool} (h : equalRun after v = some after')
    (prev : Option Char) : replaceFrom tightenStrictTypes prev 0 v = v := by
  refine replaceFrom_eq_self prev fun a c b p hab _ _ => ?_
  rw [hab] at h
  rw [tightenStrictTypes, looseStrictTypes?_of_equalRun h]
  rfl

theorem replaceFrom_separate {v : Text} {after after' : Bool} (h : equalRun after v = some after')
    (prev : Option Char) : replaceFrom separateStrictTypes prev 0 v = v := by
  refine replaceFrom_eq_self prev fun a c b p hab _ _ => ?_
  rw [hab] at h
  have hnone : after? strictTypes (c :: b) = none := by
    cases hs : after? strictTypes (c :: b) with
    | none => rfl
    | some w =>
      have := looseStrictTypes?_of_equalRun h
      rw [eq_append_of_after? hs, looseStrictTypes?_append] at this
      cases this
  simp only [separateStrictTypes, hnone, Option.bind_eq_bind, Option.bind_none]

/-! ## Lines -/

/-- An import as it is written for a new entity. -/
def IsImport (l : Text) : Prop := ∃ x : Text, ';' ∉ x ∧ l = "use" ++ x ++ ";"

/-- The lines of a file in layout. -/
structure Laid (ls : List Text) : Prop where
  oneLine : ∀ l ∈ ls, '\n' ∉ l
  last : ∀ l ∈ ls, ∀ c ∈ l.getLast?, isSpaceTab c = false
  /-- No two empty lines follow each other. -/
  apart : ls.IsChain fun l k => l ≠ [] ∨ k ≠ []
  /-- A line with an import is followed by another one or by an empty line. -/
  imports : ls.IsChain fun l k =>
    startsWith "use" l = true → IsImport l ∧ (k = [] ∨ startsWith "use" k = true)

theorem Laid.tail {l : Text} {ls : List Text} (h : Laid (l :: ls)) : Laid ls where
  oneLine k hk := h.oneLine k (List.mem_cons_of_mem l hk)
  last k hk := h.last k (List.mem_cons_of_mem l hk)
  apart := h.apart.tail
  imports := h.imports.tail

theorem trimLines_of_laid {ls : List Text} (h : Laid ls) (hne : ls ≠ []) :
    trimLines (ofLines ls) = ofLines ls := by
  rw [trimLines, lines_ofLines hne h.oneLine]
  congr 1
  conv => rhs; rw [← List.map_id ls]
  exact List.map_congr_left fun l hl => dropEndWhile_of_last (h.last l hl)

/-- A rule that applies at no character of a line leaves the line. -/
theorem replaceFrom_line {rule : Replacement} {l u v : Text} (prev : Option Char)
    (hfirst : ∀ c b, l = c :: b → rule prev (c :: (b ++ u)) = none)
    (hrule : ∀ p c b, (p ∈ l) → (c ∈ l) → rule (some p) (c :: b) = none)
    (h : ∀ p, (l = [] → p = prev) → (l ≠ [] → p = l.getLast?) → replaceFrom rule p 0 u = v) :
    replaceFrom rule prev 0 (l ++ u) = l ++ v := by
  induction l generalizing prev with
  | nil => exact h prev (fun _ => rfl) fun hne => absurd rfl hne
  | cons c l ih =>
    rw [List.cons_append, replaceFrom, hfirst c l rfl]
    simp only
    rw [ih (some c), List.cons_append]
    · intro d b hd
      exact hrule c d _ (by simp) (by simp [hd])
    · intro p d b hp hd
      exact hrule p d b (List.mem_cons_of_mem c hp) (List.mem_cons_of_mem c hd)
    · intro p hnil hcons
      refine h p (fun hne => by cases hne) fun _ => ?_
      cases l with
      | nil => simpa using hnil rfl
      | cons d l => simpa using hcons (by simp)

/-! ### Imports -/

theorem separateImport_of_prev {p : Char} (hp : p ≠ '\n') (t : Text) :
    separateImport (some p) t = none := by
  simp [separateImport, hp]

/-- A word that a line does not begin with does not go on behind the line. -/
theorem after?_of_startsWith_false {w l u : Text} (hw : '\n' ∉ w)
    (h : startsWith w l = false) : after? w (l ++ '\n' :: u) = none := by
  induction w generalizing l with
  | nil => cases l <;> cases h
  | cons c w ih =>
    simp only [List.mem_cons, not_or] at hw
    cases l with
    | nil => simp [after?, Ne.symm hw.1]
    | cons d l =>
      rw [List.cons_append, after?]
      split
      · rename_i hcd
        refine ih hw.2 ?_
        simpa [startsWith, after?, hcd] using h
      · rfl

/-- An import is followed by what does not begin a class. -/
theorem separateImport_of_laid {l : Text} {ls : List Text} (h : Laid (l :: ls))
    (hls : ls ≠ []) (prev : Option Char) :
    separateImport prev (l ++ '\n' :: ofLines ls) = none := by
  rw [separateImport]
  split
  · cases hu : startsWith "use" l with
    | false =>
      have hnone := after?_of_startsWith_false (u := ofLines ls) (by decide) hu
      simp only [importLine?, hnone, Option.bind_eq_bind, Option.bind_none]
    | true =>
      cases ls with
      | nil => exact absurd rfl hls
      | cons k ks =>
        have himp := (List.isChain_cons_cons.mp h.imports).1 hu
        obtain ⟨⟨x, hx, rfl⟩, hk⟩ := himp
        have hclass : beginsClass (ofLines (k :: ks)) = false := by
          rcases hk with rfl | hk
          · cases ks with
            | nil => rfl
            | cons m ms => rw [ofLines_cons (by simp)]; rfl
          · obtain ⟨r, hr⟩ := Option.isSome_iff_exists.mp hk
            rw [eq_append_of_after? hr]
            cases ks with
            | nil => rfl
            | cons m ms => rw [ofLines_cons (by simp)]; rfl
        have hafter : after? "use" ("use" ++ x ++ ";" ++ '\n' :: ofLines (k :: ks)) =
            some (x ++ ';' :: '\n' :: ofLines (k :: ks)) := by
          have := after?_append "use" (x ++ ';' :: '\n' :: ofLines (k :: ks))
          simpa using this
        have hall : ∀ c ∈ x, (c != ';') = true := fun c hc => by
          rw [bne_iff_ne]
          rintro rfl
          exact hx hc
        have hdrop : (x ++ ';' :: '\n' :: ofLines (k :: ks)).dropWhile (· != ';') =
            ';' :: '\n' :: ofLines (k :: ks) := by
          rw [List.dropWhile_append_of_pos hall]
          simp
        have himport : importLine? ("use" ++ x ++ ";" ++ '\n' :: ofLines (k :: ks)) = none ∨
            importLine? ("use" ++ x ++ ";" ++ '\n' :: ofLines (k :: ks)) =
              some (ofLines (k :: ks)) := by
          simp only [importLine?, hafter, Option.bind_eq_bind, Option.bind_some, hdrop]
          have hsemi : after? ";" (';' :: '\n' :: ofLines (k :: ks)) =
              some ('\n' :: ofLines (k :: ks)) := rfl
          have hfeed : after? "\n" (List.dropWhile isSpaceTab ('\n' :: ofLines (k :: ks))) =
              some (ofLines (k :: ks)) := rfl
          rw [hsemi, Option.bind_some, hfeed, Option.bind_some]
          split
          · exact .inr rfl
          · exact .inl rfl
        rcases himport with himport | himport
        · simp only [himport, Option.bind_eq_bind, Option.bind_none]
        · simp only [himport, Option.bind_eq_bind, Option.bind_some, hclass, Bool.false_eq_true,
            if_false]
  · rfl

theorem replaceFrom_imports {ls : List Text} (h : Laid ls) (hlast : ls.getLast? = some [])
    (prev : Option Char) (hprev : prev.all (· == '\n') = true) :
    replaceFrom separateImport prev 0 (ofLines ls) = ofLines ls := by
  induction ls generalizing prev with
  | nil => rfl
  | cons l ls ih =>
    cases ls with
    | nil =>
      have : l = [] := by simpa using hlast
      rw [this]
      rfl
    | cons k ks =>
      have hk : (k :: ks).getLast? = some [] := by simpa using hlast
      rw [ofLines_cons (by simp)]
      refine replaceFrom_line prev ?_ ?_ ?_
      · intro c b hl
        have := separateImport_of_laid h (by simp) prev
        rwa [hl] at this
      · intro p c b hp _
        exact separateImport_of_prev (fun hpn => h.oneLine l (by simp) (hpn ▸ hp)) _
      · intro p hnil hcons
        have hnone : separateImport p ('\n' :: ofLines (k :: ks)) = none := by
          rw [separateImport]
          split
          · rfl
          · rfl
        rw [replaceFrom, hnone]
        simp only
        rw [ih h.tail hk (some '\n') rfl]

/-! ### Blank lines -/

theorem startsWith_three {c : Char} {t : Text} (h : startsWith "\n\n\n" (c :: t) = true) :
    c = '\n' ∧ ∃ u, t = '\n' :: '\n' :: u := by
  obtain ⟨r, hr⟩ := Option.isSome_iff_exists.mp h
  have := eq_append_of_after? hr
  simp only [String.reduceToList, List.cons_append, List.nil_append, List.cons.injEq] at this
  exact ⟨this.1, r, this.2⟩

theorem collapseLineFeeds_of_ne {c : Char} (hc : c ≠ '\n') (prev : Option Char) (t : Text) :
    collapseLineFeeds prev (c :: t) = none := by
  rw [collapseLineFeeds, if_neg]
  exact fun h => hc (startsWith_three h).1

theorem replaceFrom_collapse {ls : List Text} (h : Laid ls) (prev : Option Char) :
    replaceFrom collapseLineFeeds prev 0 (ofLines ls) = ofLines ls := by
  induction ls generalizing prev with
  | nil => rfl
  | cons l ls ih =>
    have hl : ∀ c ∈ l, c ≠ '\n' := fun c hc hn => h.oneLine l (by simp) (hn ▸ hc)
    cases ls with
    | nil =>
      have : replaceFrom collapseLineFeeds prev 0 (l ++ []) = l ++ [] :=
        replaceFrom_append prev (fun p c b hc => collapseLineFeeds_of_ne (hl c hc) p b) fun _ => rfl
      rwa [List.append_nil] at this
    | cons k ks =>
      rw [ofLines_cons (by simp)]
      refine replaceFrom_append prev (fun p c b hc => collapseLineFeeds_of_ne (hl c hc) p b) ?_
      intro p
      have hnone : collapseLineFeeds p ('\n' :: ofLines (k :: ks)) = none := by
        rw [collapseLineFeeds, if_neg]
        intro hs
        obtain ⟨-, u, hu⟩ := startsWith_three hs
        -- two line feeds at the beginning of the next line: it and the one behind it are empty
        have hk : k = [] := by
          cases k with
          | nil => rfl
          | cons d k =>
            have hd : d = '\n' := by
              cases ks with
              | nil => rw [ofLines_singleton] at hu; exact (List.cons.inj hu).1
              | cons m ms => rw [ofLines_cons (by simp)] at hu; exact (List.cons.inj hu).1
            exact absurd (hd ▸ List.mem_cons_self) (h.oneLine (d :: k) (by simp))
        subst hk
        cases ks with
        | nil => cases hu
        | cons m ms =>
          rw [ofLines_cons (by simp), List.nil_append] at hu
          have hm := (List.cons.inj hu).2
          have happart := (List.isChain_cons_cons.mp h.tail.apart).1
          have hmne : m ≠ [] := happart.resolve_left fun h => h rfl
          cases m with
          | nil => exact hmne rfl
          | cons d m =>
            have hd : d = '\n' := by
              cases ms with
              | nil => rw [ofLines_singleton] at hm; exact (List.cons.inj hm).1
              | cons n ns => rw [ofLines_cons (by simp)] at hm; exact (List.cons.inj hm).1
            exact h.oneLine (d :: m) (by simp) (hd ▸ List.mem_cons_self)
      rw [replaceFrom, hnone]
      simp only
      rw [ih h.tail]

/-! ## The whole layout -/

/-- The lines with which the file of a new entity begins. -/
def tagLines : List Text := [openTag, strictTypes, []]

/-- A text behind the opening tag and the declaration of strict types. -/
def tagged (v : Text) : Text := "<?php\n" ++ (strictTypes ++ ("\n\n" ++ v))

theorem ofLines_tagLines {ls : List Text} (h : ls ≠ []) :
    ofLines (tagLines ++ ls) = tagged (ofLines ls) := by
  rw [tagLines, ofLines_append (by simp) h]
  rfl

theorem tagged_append (v w : Text) : tagged (v ++ w) = tagged v ++ w := by
  have hassoc : ∀ a b c : Text, a ++ (b ++ (c ++ (v ++ w))) = a ++ (b ++ (c ++ v)) ++ w := by
    intro a b c
    simp only [List.append_assoc]
  exact hassoc _ _ _

theorem getLast?_tagged {v : Text} (h : v ≠ []) : (tagged v).getLast? = v.getLast? := by
  have hlast : ∀ a b c : Text, (a ++ (b ++ (c ++ v))).getLast? = v.getLast? := by
    intro a b c
    have hv : a ++ (b ++ (c ++ v)) = (a ++ b ++ c) ++ v := by simp only [List.append_assoc]
    rw [hv, getLast?_append_of_ne_nil _ h]
  exact hlast _ _ _

theorem not_begins_declare {c : Char} (hc : c ∈ ("<?php\n" : Text)) (w t : Text) :
    after? ('d' :: w) (c :: t) = none := by
  have hd : ∀ c ∈ ("<?php\n" : Text), 'd' ≠ c := by decide
  rw [after?, if_neg (hd c hc)]

theorem tightenStrictTypes_tagged {v : Text} {after : Bool} (h : equalRun false v = some after) :
    replaceAll tightenStrictTypes (tagged v) = tagged v := by
  have hfeeds : equalRun false ("\n\n" ++ v) = some after := h
  refine replaceFrom_append none ?_ fun prev => ?_
  · intro p c b hc
    have hnone : after? "declare" (c :: b) = none := not_begins_declare hc _ b
    rw [tightenStrictTypes, looseStrictTypes?, loosely?, hnone]
    rfl
  · exact replaceFrom_found (c := 'd') (congrArg (Option.map _) (looseStrictTypes?_append _))
      fun p => replaceFrom_tighten hfeeds p

theorem separateStrictTypes_tagged {d : Char} {v : Text} {after : Bool} (hd : isBlank d = false)
    (h : equalRun false (d :: v) = some after) :
    replaceAll separateStrictTypes (tagged (d :: v)) = tagged (d :: v) := by
  have hbehind : behindLineFeeds? ("\n\n" ++ d :: v) = some (d :: v) := by
    have hdn : (d == '\n') = false := by
      rw [beq_eq_false_iff_ne]
      rintro rfl
      revert hd
      decide
    simp [behindLineFeeds?, isSpaceTab, hdn, hd]
  have hassoc : tagged (d :: v) = "<?php\n" ++ ((strictTypes ++ "\n\n") ++ (d :: v)) :=
    congrArg (("<?php\n" : Text) ++ ·) (List.append_assoc strictTypes _ _).symm
  rw [hassoc]
  refine replaceFrom_append none ?_ fun prev => ?_
  · intro p c b hc
    have hnone : after? strictTypes (c :: b) = none := not_begins_declare hc _ b
    rw [separateStrictTypes, hnone]
    rfl
  · refine replaceFrom_found (c := 'd') ?_ fun p => replaceFrom_separate h p
    have hrule : separateStrictTypes prev (strictTypes ++ ("\n\n" ++ d :: v)) =
        some (strictTypes ++ "\n\n", d :: v) := by
      rw [separateStrictTypes, after?_append, Option.bind_eq_bind, Option.bind_some, hbehind]
      rfl
    rw [← List.append_assoc] at hrule
    exact hrule

theorem separateOpenTag_tagged (v : Text) : separateOpenTag (tagged v) = tagged v := by
  have hafter : after? openTag (tagged v) = some ("\n" ++ (strictTypes ++ ("\n\n" ++ v))) :=
    after?_append openTag _
  have hbehind : behindLineFeeds? ("\n" ++ (strictTypes ++ ("\n\n" ++ v))) =
      some (strictTypes ++ ("\n\n" ++ v)) := rfl
  have hword : beginsWithWord "declare" (strictTypes ++ ("\n\n" ++ v)) = true := rfl
  rw [separateOpenTag, hafter, Option.bind_some, hbehind]
  simp only [hword, if_true]

/-- **A file in layout stays as it is.** -/
theorem normalizeWhitespace_of_laid {d : Char} {r : Text} {ls : List Text}
    (h : Laid (tagLines ++ ((d :: r) :: ls ++ [[]])))
    (hequal : ∃ after, equalRun false (ofLines ((d :: r) :: ls ++ [[]])) = some after)
    (hfirst : isBlank d = false)
    (hlast : ∀ c ∈ (ofLines ((d :: r) :: ls)).getLast?, (c == '\n') = false) :
    normalizeWhitespace (ofLines (tagLines ++ ((d :: r) :: ls ++ [[]]))) =
      ofLines (tagLines ++ ((d :: r) :: ls ++ [[]])) := by
  obtain ⟨after, hequal⟩ := hequal
  obtain ⟨v, hv⟩ : ∃ v, ofLines ((d :: r) :: ls ++ [[]]) = d :: v := by
    rw [List.cons_append, ofLines_cons (by simp)]
    exact ⟨_, rfl⟩
  have htext : ofLines (tagLines ++ ((d :: r) :: ls ++ [[]])) = tagged (d :: v) := by
    rw [ofLines_tagLines (by simp), hv]
  have hempty : (tagLines ++ ((d :: r) :: ls ++ [[]])).getLast? = some [] := by
    rw [← List.append_assoc, List.getLast?_append]
    rfl
  have himports : replaceAll separateImport _ = _ := replaceFrom_imports h hempty none rfl
  have htrim := trimLines_of_laid h (by simp)
  have hcollapse : replaceAll collapseLineFeeds _ = _ := replaceFrom_collapse h none
  have hends : trimWhile (· == '\n') (tagged (d :: v)) ++ "\n" = tagged (d :: v) := by
    have hcontent : ofLines ((d :: r) :: ls) ≠ [] := by
      cases ls with
      | nil => simp [ofLines_singleton]
      | cons k ks => simp [ofLines_cons]
    have hcut : tagged (d :: v) = tagged (ofLines ((d :: r) :: ls)) ++ ['\n'] := by
      rw [← hv, ofLines_append_empty (by simp), tagged_append]
    have hhead : (tagged (d :: v)).dropWhile (· == '\n') = tagged (d :: v) := rfl
    rw [trimWhile, hhead, hcut, dropEndWhile_append_of_all (by simp), dropEndWhile_of_last]
    · rfl
    · intro c hc
      rw [getLast?_tagged hcontent] at hc
      exact hlast c hc
  rw [htext] at himports htrim hcollapse ⊢
  rw [hv] at hequal
  have hformatted : formatted (tagged (d :: v)) = tagged (d :: v) := by
    simp only [formatted, tightenStrictTypes_tagged hequal, separateStrictTypes_tagged hfirst hequal,
      separateOpenTag_tagged]
    rw [himports, htrim, hcollapse, hends]
  have htag : startsWith openTag (tagged (d :: v)) = true := rfl
  rw [normalizeWhitespace, hformatted, withOpenTag, if_pos htag]

end EntityScaffold.Source
