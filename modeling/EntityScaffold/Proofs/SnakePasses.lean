import EntityScaffold.Proofs.SnakeCase
import EntityScaffold.Proofs.Source.Replacing

/-!
# Snake case pass by pass

`snakeCase` finds all humps of a name at once and leaves out what is not in a word.  The same comes of
five passes over the text: underscores are put into acronyms, then between small letters and capitals;
what is neither a letter nor a digit becomes an underscore, too; of several underscores one is left, and
none at the ends.

* `Replaced.eq_parted` — when a pass puts underscores just where something begins.
* `humps_eq_parted`, `replaceAll_partAcronym`, `replaceAll_partHump` — the first two passes do, and
  together they find the humps.
* `Sparse`, `joinWith_runsOf` — a text without neighbouring underscores is what its runs are joined to.
* `snakeCase_eq_snakePasses` — the passes come to the name in snake case.
-/

set_option autoImplicit false

namespace EntityScaffold

open Text Source

/-! ## The passes -/

/-- A run of two or more capitals and a small letter behind it: the last capital goes with the small
letter. -/
def partAcronym : Replacement := fun _ t =>
  match (t.takeWhile isAsciiUpper).reverse, t.dropWhile isAsciiUpper with
  | c :: b :: caps, d :: rest =>
    if isAsciiLower d then some ((b :: caps).reverse ++ ['_', c, d], rest) else none
  | _, _ => none

/-- A small letter or digit and a capital. -/
def partHump : Replacement := fun _ t =>
  match t with
  | c :: d :: rest => if isSmall c && isAsciiUpper d then some ([c, '_', d], rest) else none
  | _ => none

/-- Leaves one of several underscores. -/
def collapseUnderscores : Replacement := fun _ t =>
  if startsWith "__" t then some ("_", t.dropWhile (· == '_')) else none

/-- The name in snake case, pass by pass. -/
def snakePasses (name : Text) : Text :=
  let t := replaceAll partHump (replaceAll partAcronym name)
  let t := t.map fun c => if isAlphanumeric c then c else '_'
  lower (trimWhile (· == '_') (replaceAll collapseUnderscores t))

/-- The text with an underscore at every place where something begins. -/
def parted (begins : Option Char → Text → Bool) (prev : Option Char) : Text → Text
  | [] => []
  | c :: t =>
    if begins prev (c :: t) then '_' :: c :: parted begins (some c) t
    else c :: parted begins (some c) t

/-- **A pass puts underscores where something begins**, provided that its rule applies one character
before such a place, and that it does not apply in the last character of what it has replaced. -/
theorem Source.Replaced.eq_parted {rule : Replacement} {begins : Option Char → Text → Bool}
    (hfirst : ∀ t, begins none t = false)
    (hbegins : ∀ p t q, begins (some p) t = true → rule q (p :: t) ≠ none)
    (hrule : ∀ prev t new rest, rule prev t = some (new, rest) →
      ∃ init last, t = init ++ last :: rest ∧
        parted begins prev t = new ++ parted begins (some last) rest ∧
        ∃ q, rule q (last :: rest) = none)
    {prev : Option Char} {s t : Text} (h : Replaced rule prev s t)
    (hprev : ∀ p ∈ prev, ∃ q, rule q (p :: s) = none) : t = parted begins prev s := by
  induction h with
  | nil => rfl
  | @keep prev c s t stays rest ih =>
    have hno : begins prev (c :: s) = false := by
      cases prev with
      | none => exact hfirst _
      | some p =>
        obtain ⟨q, hq⟩ := hprev p rfl
        exact Bool.eq_false_iff.mpr fun hyes => hbegins p _ q hyes hq
    rw [parted, hno, ih (by rintro p ⟨⟩; exact ⟨prev, stays⟩)]
    rfl
  | @swap prev old new s t found hne rest ih =>
    obtain ⟨init, last, hsplit, hparted, hlast⟩ := hrule _ _ _ _ found
    have hold : old ++ s = (init ++ [last]) ++ s := by rw [hsplit, List.append_assoc]; rfl
    obtain rfl := List.append_cancel_right hold
    have hend : (init ++ [last]).getLast?.or prev = some last := by simp
    rw [hend] at ih
    rw [hparted, ih (by rintro p ⟨⟩; exact hlast)]

/-! ## The two boundaries -/

/-- A capital behind a capital and in front of a small letter. -/
def endsAcronym (prev : Option Char) (t : Text) : Bool :=
  t.head?.any isAsciiUpper && prev.any isAsciiUpper && t.tail.head?.any isAsciiLower

/-- A capital behind a small letter or a digit. -/
def endsSmall (prev : Option Char) (t : Text) : Bool :=
  t.head?.any isAsciiUpper && prev.any isSmall

@[simp] theorem endsAcronym_cons (prev : Option Char) (c : Char) (t : Text) :
    endsAcronym prev (c :: t) =
      (isAsciiUpper c && prev.any isAsciiUpper && t.head?.any isAsciiLower) := rfl

@[simp] theorem endsSmall_cons (prev : Option Char) (c : Char) (t : Text) :
    endsSmall prev (c :: t) = (isAsciiUpper c && prev.any isSmall) := rfl

theorem not_isAsciiUpper_of_isAsciiLower {c : Char} (h : isAsciiLower c = true) :
    isAsciiUpper c = false :=
  (of_isSmall (by rw [isSmall, h, Bool.true_or])).1

theorem not_isAsciiLower_of_isAsciiUpper {c : Char} (h : isAsciiUpper c = true) :
    isAsciiLower c = false :=
  Bool.eq_false_iff.mpr fun hlower => by
    rw [not_isAsciiUpper_of_isAsciiLower hlower] at h
    cases h

/-- The two boundaries one after the other are the humps of a name. -/
theorem humps_eq_parted (prev : Option Char) (t : Text) :
    humps prev t = parted endsSmall prev (parted endsAcronym prev t) := by
  induction t generalizing prev with
  | nil => rfl
  | cons c t ih =>
    have hbegins : (isAsciiUpper c && (prev.any (fun p => isAsciiLower p || isAsciiDigit p) ||
        (prev.any isAsciiUpper && t.head?.any isAsciiLower))) =
        (endsSmall prev (c :: t) || endsAcronym prev (c :: t)) := by
      rw [endsSmall_cons, endsAcronym_cons, Bool.and_assoc, ← Bool.and_or_distrib_left]
      rfl
    rw [humps, hbegins]
    cases hacronym : endsAcronym prev (c :: t) with
    | true =>
      -- the underscore is put in once, since it is no small letter itself
      have hskip : endsSmall (some '_') (c :: parted endsAcronym (some c) t) = false := by
        rw [endsSmall_cons, Bool.and_eq_false_iff]
        exact .inr (by decide)
      have hunderscore : endsSmall prev ('_' :: c :: parted endsAcronym (some c) t) = false := by
        rw [endsSmall_cons, Bool.and_eq_false_iff]
        exact .inl (by decide)
      simp only [Bool.or_true, if_true, parted, hacronym, hskip, hunderscore, Bool.false_eq_true,
        if_false, ih]
    | false =>
      simp only [Bool.or_false, parted, hacronym, Bool.false_eq_true, if_false, endsSmall_cons, ih]
      rfl

/-- What the rule for acronyms finds. -/
theorem of_partAcronym {prev : Option Char} {t new rest : Text}
    (h : partAcronym prev t = some (new, rest)) :
    ∃ caps c d, caps ≠ [] ∧ (∀ b ∈ caps, isAsciiUpper b = true) ∧ isAsciiUpper c = true ∧
      isAsciiLower d = true ∧ t = caps ++ c :: d :: rest ∧ new = caps ++ ['_', c, d] := by
  simp only [partAcronym] at h
  split at h
  · rename_i c b caps d rest' hcaps hrest
    split at h
    · rename_i hd
      obtain ⟨rfl, rfl⟩ := Prod.mk.inj (Option.some.inj h)
      have htake : t.takeWhile isAsciiUpper = (b :: caps).reverse ++ [c] := by
        rw [← List.reverse_reverse (t.takeWhile isAsciiUpper), hcaps]
        simp
      have hall : ∀ e ∈ (b :: caps).reverse ++ [c], isAsciiUpper e = true :=
        htake ▸ fun e he => List.mem_takeWhile_imp he
      refine ⟨(b :: caps).reverse, c, d, by simp, fun e he => hall e (List.mem_append_left _ he),
        hall c (by simp), hd, ?_, rfl⟩
      rw [← List.takeWhile_append_dropWhile (p := isAsciiUpper) (l := t), htake, hrest,
        List.append_assoc]
      rfl
    · cases h
  · cases h

theorem parted_acronym {caps rest : Text} {c d : Char} (hne : caps ≠ [])
    (hcaps : ∀ b ∈ caps, isAsciiUpper b = true) (hc : isAsciiUpper c = true)
    (hd : isAsciiLower d = true) (prev : Option Char) :
    parted endsAcronym prev (caps ++ c :: d :: rest) =
      caps ++ ['_', c, d] ++ parted endsAcronym (some d) rest := by
  induction caps generalizing prev with
  | nil => exact absurd rfl hne
  | cons b caps ih =>
    have hb := hcaps b List.mem_cons_self
    cases caps with
    | nil =>
      simp [parted, hb, hc, hd, not_isAsciiLower_of_isAsciiUpper hc,
        not_isAsciiUpper_of_isAsciiLower hd]
    | cons b' caps =>
      have hb' := hcaps b' (List.mem_cons_of_mem b List.mem_cons_self)
      have hrest := ih (List.cons_ne_nil _ _) (fun e he => hcaps e (List.mem_cons_of_mem b he))
        (some b)
      rw [List.cons_append, parted, hrest]
      simp [not_isAsciiLower_of_isAsciiUpper hb']

theorem replaceAll_partAcronym (t : Text) :
    replaceAll partAcronym t = parted endsAcronym none t := by
  have hconsumes : Replacement.Consumes partAcronym := by
    intro prev t new rest h
    obtain ⟨caps, c, d, hne, -, -, -, rfl, -⟩ := of_partAcronym h
    exact ⟨caps ++ [c, d], by simp, by simp⟩
  refine (replaced_replaceAll hconsumes t).eq_parted ?_ ?_ ?_ (by rintro p ⟨⟩)
  · intro t
    simp [endsAcronym]
  · rintro p (- | ⟨c, - | ⟨d, t⟩⟩) q h
    · cases h
    · simp at h
    · simp only [endsAcronym_cons, Option.any_some, List.head?_cons, Bool.and_eq_true] at h
      obtain ⟨⟨hc, hp⟩, hd⟩ := h
      simp [partAcronym, hp, hc, hd, not_isAsciiUpper_of_isAsciiLower hd]
  · intro prev t new rest h
    obtain ⟨caps, c, d, hne, hcaps, hc, hd, rfl, rfl⟩ := of_partAcronym h
    refine ⟨caps ++ [c], d, by simp, parted_acronym hne hcaps hc hd prev, none, ?_⟩
    simp [partAcronym, not_isAsciiUpper_of_isAsciiLower hd]

theorem replaceAll_partHump (t : Text) : replaceAll partHump t = parted endsSmall none t := by
  have hfound : ∀ prev t new rest, partHump prev t = some (new, rest) → ∃ c d,
      isSmall c = true ∧ isAsciiUpper d = true ∧ t = c :: d :: rest ∧ new = [c, '_', d] := by
    rintro prev (- | ⟨c, - | ⟨d, t⟩⟩) new rest h
    · cases h
    · cases h
    · simp only [partHump, Option.ite_none_right_eq_some, Bool.and_eq_true, Option.some.injEq,
        Prod.mk.injEq] at h
      obtain ⟨⟨hc, hd⟩, rfl, rfl⟩ := h
      exact ⟨c, d, hc, hd, rfl, rfl⟩
  have hconsumes : Replacement.Consumes partHump := by
    intro prev t new rest h
    obtain ⟨c, d, -, -, rfl, -⟩ := hfound _ _ _ _ h
    exact ⟨[c, d], rfl, List.cons_ne_nil _ _⟩
  refine (replaced_replaceAll hconsumes t).eq_parted ?_ ?_ ?_ (by rintro p ⟨⟩)
  · intro t
    simp [endsSmall]
  · rintro p (- | ⟨c, t⟩) q h
    · cases h
    · rw [endsSmall_cons, Option.any_some, Bool.and_eq_true] at h
      simp [partHump, h.1, h.2]
  · intro prev t new rest h
    obtain ⟨c, d, hc, hd, rfl, rfl⟩ := hfound _ _ _ _ h
    refine ⟨[c], d, rfl, ?_, none, ?_⟩
    · simp [parted, hc, hd, (of_isSmall hc).1]
    · have hsmall : isSmall d = false :=
        Bool.eq_false_iff.mpr fun hsmall => by rw [(of_isSmall hsmall).1] at hd; cases hd
      cases rest <;> simp [partHump, hsmall]

/-! ## Underscores -/

section

variable {p : Char → Bool} {c : Char} {s t : Text}

/-- The runs of a longer text depend on what the text begins with and on its own runs. -/
theorem runsOf_cons_congr (hhead : s.head? = t.head?) (hruns : runsOf p s = runsOf p t) :
    runsOf p (c :: s) = runsOf p (c :: t) := by
  rw [runsOf_cons, runsOf_cons, hruns]
  cases s with
  | nil => cases t with
    | nil => rfl
    | cons d t => cases hhead
  | cons d s => cases t with
    | nil => cases hhead
    | cons e t =>
      obtain rfl : d = e := by simpa using hhead
      cases runsOf p (d :: t) <;> rfl

theorem runsOf_append_left (hs : ∀ c ∈ s, p c = false) : runsOf p (s ++ t) = runsOf p t := by
  induction s with
  | nil => rfl
  | cons c s ih =>
    rw [List.cons_append, runsOf_cons_of_neg (hs c List.mem_cons_self),
      ih fun d hd => hs d (List.mem_cons_of_mem c hd)]

theorem runsOf_append_right (ht : ∀ c ∈ t, p c = false) : runsOf p (s ++ t) = runsOf p s := by
  have hnone : runsOf p t = [] := by
    simpa [runsOf] using runsOf_append_left (t := []) ht
  induction s with
  | nil => exact hnone
  | cons c s ih =>
    cases hc : p c with
    | false => rw [List.cons_append, runsOf_cons_of_neg hc, runsOf_cons_of_neg hc, ih]
    | true =>
      cases s with
      | nil =>
        have hstop : ∀ d ∈ t.head?, p d = false := fun d hd => ht d (List.mem_of_mem_head? hd)
        have hlast : runsOf p [c] = [[c]] := runsOf_cons_of_stop hc fun d hd => by cases hd
        rw [List.cons_append, List.nil_append, runsOf_cons_of_stop hc hstop, hnone, hlast]
      | cons d s => exact runsOf_cons_congr rfl ih

/-- The runs of a text whose characters have been replaced. -/
theorem runsOf_map {q : Char → Bool} {f : Char → Char} (h : ∀ c, q (f c) = p c) (t : Text) :
    runsOf q (t.map f) = (runsOf p t).map (·.map f) := by
  induction t with
  | nil => rfl
  | cons c t ih =>
    rw [List.map_cons]
    cases hc : p c with
    | false => rw [runsOf_cons_of_neg hc, runsOf_cons_of_neg (by rw [h, hc]), ih]
    | true =>
      rw [runsOf_cons, runsOf_cons, ih, h, hc, if_pos rfl, if_pos rfl]
      cases t with
      | nil => rfl
      | cons d t =>
        simp only [List.map_cons]
        cases runsOf p (d :: t) with
        | nil => rfl
        | cons run more =>
          simp only [List.map_cons, h]
          split <;> rfl

end

/-- Whatever is no underscore. -/
def isInWord (c : Char) : Bool := c != '_'

theorem isInWord_iff {c : Char} : isInWord c = true ↔ c ≠ '_' := bne_iff_ne

/-- No two underscores stand side by side. -/
def Sparse (t : Text) : Prop := t.IsChain fun c d => ¬ (c = '_' ∧ d = '_')

/-- What the rule for underscores finds: two or more of them, and no more behind. -/
theorem of_collapseUnderscores {prev : Option Char} {t new rest : Text}
    (h : collapseUnderscores prev t = some (new, rest)) :
    new = ['_'] ∧ (∀ c ∈ rest.head?, c ≠ '_') ∧
      ∃ old, t = '_' :: old ++ rest ∧ ∀ c ∈ old, c = '_' := by
  simp only [collapseUnderscores, Option.ite_none_right_eq_some, Option.some.injEq,
    Prod.mk.injEq] at h
  obtain ⟨htwo, rfl, rfl⟩ := h
  obtain ⟨u, hu⟩ := Option.isSome_iff_exists.mp htwo
  obtain rfl : t = "__".toList ++ u := eq_append_of_after? hu
  refine ⟨rfl, fun c hc => ?_, '_' :: u.takeWhile (· == '_'), ?_, fun c hc => ?_⟩
  · simpa using head?_dropWhile (· == '_') ("__".toList ++ u) c hc
  · have hsplit := List.takeWhile_append_dropWhile (p := (· == '_')) (l := "__".toList ++ u)
    exact hsplit.symm
  · rcases List.mem_cons.mp hc with rfl | hc
    · rfl
    · simpa using List.mem_takeWhile_imp hc

theorem collapseUnderscores_consumes : Replacement.Consumes collapseUnderscores := by
  intro prev t new rest h
  obtain ⟨-, -, old, rfl, -⟩ := of_collapseUnderscores h
  exact ⟨'_' :: old, rfl, List.cons_ne_nil _ _⟩

/-- What the pass over the underscores leaves, and what it comes to. -/
theorem sparse_of_replaced {prev : Option Char} {s t : Text}
    (h : Replaced collapseUnderscores prev s t) :
    t.head? = s.head? ∧ Sparse t ∧ runsOf isInWord t = runsOf isInWord s := by
  induction h with
  | nil => exact ⟨rfl, .nil, rfl⟩
  | @keep prev c s t stays _ ih =>
    obtain ⟨hhead, hsparse, hruns⟩ := ih
    refine ⟨rfl, List.isChain_cons.mpr ⟨?_, hsparse⟩, runsOf_cons_congr hhead hruns⟩
    rintro d hd ⟨rfl, rfl⟩
    rw [hhead] at hd
    cases s with
    | nil => cases hd
    | cons e s =>
      obtain rfl : e = '_' := by simpa using hd
      cases stays
  | @swap prev old new s t found _ _ ih =>
    obtain ⟨hhead, hsparse, hruns⟩ := ih
    obtain ⟨rfl, hstop, u, hold, hu⟩ := of_collapseUnderscores found
    obtain rfl : old = '_' :: u := List.append_cancel_right hold
    have hnone : ∀ c ∈ '_' :: u, isInWord c = false := by simpa [isInWord] using hu
    refine ⟨rfl, List.isChain_cons.mpr ⟨?_, hsparse⟩, ?_⟩
    · rintro d hd ⟨-, rfl⟩
      exact hstop _ (hhead ▸ hd) rfl
    · rw [List.singleton_append, runsOf_cons_of_neg rfl, hruns, runsOf_append_left hnone]

/-- **A text without neighbouring underscores, and none at its ends, is what its runs are joined to.** -/
theorem joinWith_runsOf : ∀ {t : Text}, Sparse t → (∀ c ∈ t.head?, c ≠ '_') →
    (∀ c ∈ t.getLast?, c ≠ '_') → joinWith ['_'] (runsOf isInWord t) = t
  | [], _, _, _ => rfl
  | [c], _, hfirst, _ => by
    have hc : isInWord c = true := isInWord_iff.mpr (hfirst c rfl)
    rw [runsOf_cons_of_stop hc fun d hd => by cases hd]
    rfl
  | c :: d :: t, hsparse, hfirst, hlast => by
    have hc : isInWord c = true := isInWord_iff.mpr (hfirst c rfl)
    obtain ⟨-, hrest⟩ := List.isChain_cons.mp hsparse
    rw [List.getLast?_cons_cons] at hlast
    by_cases hd : d = '_'
    · -- a word is over: the next one follows the underscore
      subst hd
      obtain ⟨hnext, hmore⟩ := List.isChain_cons.mp hrest
      cases t with
      | nil => exact absurd rfl (hlast '_' rfl)
      | cons e t =>
        have he : e ≠ '_' := fun he => hnext e rfl ⟨rfl, he⟩
        have ih := joinWith_runsOf hmore (by rintro _ ⟨⟩; exact he) hlast
        obtain ⟨run, more, hruns⟩ := exists_runsOf_cons (isInWord_iff.mpr he) t
        rw [runsOf_cons_of_stop hc (by rintro _ ⟨⟩; rfl), runsOf_cons_of_neg rfl]
        rw [hruns] at ih ⊢
        rw [joinWith, ih]
        · rfl
        · exact List.cons_ne_nil _ _
    · have ih := joinWith_runsOf hrest (by rintro _ ⟨⟩; exact hd) hlast
      obtain ⟨run, more, hruns, hcons⟩ := runsOf_cons_cons (t := t) hc (isInWord_iff.mpr hd)
      rw [hruns, joinWith_cons] at ih
      rw [hcons, joinWith_cons, List.cons_append, ih]

/-! ## The name -/

/-- What is trimmed away at the ends, and where the trimming stops. -/
theorem exists_trimWhile (p : Char → Bool) (t : Text) :
    ∃ u v, t = u ++ (trimWhile p t ++ v) ∧ (∀ c ∈ u, p c = true) ∧ (∀ c ∈ v, p c = true) ∧
      (∀ c ∈ (trimWhile p t).head?, p c = false) ∧
      ∀ c ∈ (trimWhile p t).getLast?, p c = false := by
  obtain ⟨v, hsplit, hv⟩ := exists_dropEndWhile p (t.dropWhile p)
  refine ⟨t.takeWhile p, v, ?_, fun c hc => List.mem_takeWhile_imp hc, hv, head?_trimWhile p t,
    getLast?_dropEndWhile p (t.dropWhile p)⟩
  rw [trimWhile, ← hsplit, List.takeWhile_append_dropWhile]

/-- **A text without neighbouring underscores is, but for its ends, what its runs are joined to.** -/
theorem Sparse.trimWhile_eq {t : Text} (h : Sparse t) :
    trimWhile (· == '_') t = joinWith ['_'] (runsOf isInWord t) := by
  obtain ⟨u, v, hsplit, hu, hv, hfirst, hlast⟩ := exists_trimWhile (· == '_') t
  have hnot : ∀ s : Text, (∀ c ∈ s, (c == '_') = true) → ∀ c ∈ s, isInWord c = false :=
    fun s hs c hc => by simpa [isInWord] using hs c hc
  have hruns : runsOf isInWord t = runsOf isInWord (trimWhile (· == '_') t) := by
    conv => lhs; rw [hsplit]
    rw [runsOf_append_left (hnot u hu), runsOf_append_right (hnot v hv)]
  rw [hruns, joinWith_runsOf]
  · exact List.IsChain.infix h ⟨u, v, by rw [List.append_assoc, ← hsplit]⟩
  · simpa using hfirst
  · simpa using hlast

theorem map_joinWith (f : Char → Char) (s : Text) (ws : List Text) :
    (joinWith s ws).map f = joinWith (s.map f) (ws.map (·.map f)) := by
  cases ws with
  | nil => rfl
  | cons w ws =>
    rw [List.map_cons, joinWith_cons, joinWith_cons, List.map_append, List.map_flatMap,
      List.flatMap_map]
    simp only [List.map_append]

/-- **The passes come to the name in snake case.** -/
theorem snakeCase_eq_snakePasses (name : Text) : snakeCase name = snakePasses name := by
  have hhumps : replaceAll partHump (replaceAll partAcronym name) = humps none name := by
    rw [replaceAll_partHump, replaceAll_partAcronym, humps_eq_parted]
  let clean : Char → Char := fun c => if isAlphanumeric c then c else '_'
  -- a letter or digit stays what it is, and everything else becomes an underscore
  have hclean : ∀ c, isInWord (clean c) = isAlphanumeric c := by
    intro c
    simp only [clean]
    split
    · rename_i hc
      rw [hc, isInWord_iff]
      exact (isAlphanumeric_iff.mp hc).2
    · rename_i hc
      rw [Bool.eq_false_iff.mpr hc]
      rfl
  have hstays : ∀ w ∈ runsOf isAlphanumeric (humps none name), w.map clean = w := by
    intro w hw
    refine (List.map_congr_left fun c hc => ?_).trans (List.map_id w)
    exact if_pos (of_mem_runsOf hw c hc)
  obtain ⟨-, hsparse, hruns⟩ := sparse_of_replaced
    (replaced_replaceAll collapseUnderscores_consumes ((humps none name).map clean))
  have hwords : runsOf isInWord ((humps none name).map clean) =
      runsOf isAlphanumeric (humps none name) := by
    rw [runsOf_map hclean, List.map_congr_left hstays]
    exact List.map_id _
  have htrimmed := hsparse.trimWhile_eq
  rw [hruns, hwords] at htrimmed
  have hascii : ∀ c ∈ joinWith ['_'] (runsOf isAlphanumeric (humps none name)),
      c.toNat < 0x80 := by
    have hplain : Plain (joinWith ['_'] (runsOf isAlphanumeric (humps none name))) :=
      plain_joinWith (by decide) fun w hw c hc =>
        (isAlphanumeric_iff.mp (of_mem_runsOf hw c hc)).1
    exact fun c hc => toNat_lt_of_isAsciiWord (hplain c hc)
  have hpasses : snakePasses name =
      lower (joinWith ['_'] (runsOf isAlphanumeric (humps none name))) := by
    rw [snakePasses, hhumps, ← htrimmed]
  rw [hpasses, lower_of_ascii hascii, map_joinWith]
  rfl

end EntityScaffold
