import EntityScaffold.Proofs.Resolved

/-!
# Names in snake case

`snakeCase` puts underscores at the humps of a name, cuts it at whatever is neither a letter nor a
digit, and joins the lower-case words with underscores.

* `flatten_runsOf`, `runsOf_joinWith` — runs hold just the characters that are asked for, and the runs
  of words that are joined are these words.
* `filter_humps`, `humps_of_no_capital` — underscores are all that is put in, and only before capitals.
* `snakeCase_clean` — what comes out is clean, has the letters and digits of the name, and stays as it
  is when it is put into snake case again.
-/

set_option autoImplicit false

namespace EntityScaffold

open Text Source

/-! ## Runs -/

section

variable {p : Char → Bool} {c d : Char} {t run : Text}

/-- The runs of a longer text. -/
theorem runsOf_cons (p : Char → Bool) (c : Char) (t : Text) : runsOf p (c :: t) =
    if p c then
      match t, runsOf p t with
      | d :: _, run :: more => if p d then (c :: run) :: more else [c] :: run :: more
      | _, more => [c] :: more
    else runsOf p t := rfl

theorem runsOf_cons_of_neg (hc : p c = false) : runsOf p (c :: t) = runsOf p t := by
  rw [runsOf_cons, if_neg (by simp [hc])]

/-- A run that is over. -/
theorem runsOf_cons_of_stop (hc : p c = true) (ht : ∀ d ∈ t.head?, p d = false) :
    runsOf p (c :: t) = [c] :: runsOf p t := by
  rw [runsOf_cons, if_pos hc]
  split
  · rename_i d t run more hruns
    rw [if_neg (by simp [ht d rfl]), hruns]
  · rfl

theorem exists_runsOf_cons (hc : p c = true) (t : Text) :
    ∃ run more, runsOf p (c :: t) = run :: more := by
  rw [runsOf_cons, if_pos hc]
  split
  · split <;> exact ⟨_, _, rfl⟩
  · exact ⟨_, _, rfl⟩

/-- A run that goes on. -/
theorem runsOf_cons_cons (hc : p c = true) (hd : p d = true) :
    ∃ run more, runsOf p (d :: t) = run :: more ∧ runsOf p (c :: d :: t) = (c :: run) :: more := by
  obtain ⟨run, more, hruns⟩ := exists_runsOf_cons hd t
  refine ⟨run, more, hruns, ?_⟩
  rw [runsOf_cons, if_pos hc, hruns]
  exact if_pos hd

/-- A character begins a run, or the run that follows it. -/
theorem runsOf_cons_cases (hc : p c = true) (t : Text) :
    runsOf p (c :: t) = [c] :: runsOf p t ∨
      ∃ run more, runsOf p t = run :: more ∧ runsOf p (c :: t) = (c :: run) :: more := by
  rw [runsOf_cons, if_pos hc]
  split
  · rename_i hruns
    rw [hruns]
    split
    · exact .inr ⟨_, _, rfl, rfl⟩
    · exact .inl rfl
  · exact .inl rfl

theorem ne_nil_of_mem_runsOf (h : run ∈ runsOf p t) : run ≠ [] := by
  induction t generalizing run with
  | nil => cases h
  | cons c t ih =>
    cases hc : p c with
    | false => exact ih (runsOf_cons_of_neg hc ▸ h)
    | true =>
      rcases runsOf_cons_cases hc t with hcons | ⟨run', more, hruns, hcons⟩
      · rw [hcons] at h
        rcases List.mem_cons.mp h with rfl | h
        · exact List.cons_ne_nil _ _
        · exact ih h
      · rw [hcons] at h
        rcases List.mem_cons.mp h with rfl | h
        · exact List.cons_ne_nil _ _
        · exact ih (hruns ▸ List.mem_cons_of_mem _ h)

/-- **The runs hold the characters that are asked for**, all of them and in order. -/
theorem flatten_runsOf (p : Char → Bool) (t : Text) : (runsOf p t).flatten = t.filter p := by
  induction t with
  | nil => rfl
  | cons c t ih =>
    cases hc : p c with
    | false => rw [runsOf_cons_of_neg hc, ih, List.filter_cons_of_neg (by simp [hc])]
    | true =>
      rw [List.filter_cons_of_pos hc, ← ih]
      rcases runsOf_cons_cases hc t with hcons | ⟨run, more, hruns, hcons⟩
      · rw [hcons]
        rfl
      · rw [hcons, hruns]
        rfl

theorem runsOf_append_of_stop (hrun : ∀ c ∈ run, p c = true) (hne : run ≠ [])
    (ht : ∀ d ∈ t.head?, p d = false) : runsOf p (run ++ t) = run :: runsOf p t := by
  induction run with
  | nil => exact absurd rfl hne
  | cons c run ih =>
    have hc := hrun c List.mem_cons_self
    cases run with
    | nil => exact runsOf_cons_of_stop hc ht
    | cons d run =>
      have hd := hrun d (List.mem_cons_of_mem c List.mem_cons_self)
      obtain ⟨run', more, hruns, hcons⟩ := runsOf_cons_cons (t := run ++ t) hc hd
      have hrest := ih (fun e he => hrun e (List.mem_cons_of_mem c he)) (List.cons_ne_nil _ _)
      rw [List.cons_append, hruns, List.cons.injEq] at hrest
      rw [List.cons_append, List.cons_append, hcons, hrest.1, hrest.2]

/-- **The runs of joined words are the words.** -/
theorem runsOf_joinWith {s : Char} {ws : List Text} (hs : p s = false)
    (hws : ∀ w ∈ ws, w ≠ [] ∧ ∀ c ∈ w, p c = true) : runsOf p (joinWith [s] ws) = ws := by
  induction ws with
  | nil => rfl
  | cons w ws ih =>
    obtain ⟨hne, hw⟩ := hws w List.mem_cons_self
    cases ws with
    | nil =>
      have hlast := runsOf_append_of_stop (t := []) hw hne fun d hd => by cases hd
      rwa [List.append_nil] at hlast
    | cons v ws =>
      have hstep : joinWith [s] (w :: v :: ws) = w ++ s :: joinWith [s] (v :: ws) :=
        List.append_assoc ..
      have hstop : ∀ d ∈ (s :: joinWith [s] (v :: ws)).head?, p d = false := by
        rintro d ⟨⟩
        exact hs
      rw [hstep, runsOf_append_of_stop hw hne hstop, runsOf_cons_of_neg hs,
        ih fun u hu => hws u (List.mem_cons_of_mem w hu)]

end

/-! ## Humps -/

/-- Underscores are all that is put in. -/
theorem filter_humps (prev : Option Char) (t : Text) :
    (humps prev t).filter isAlphanumeric = t.filter isAlphanumeric := by
  induction t generalizing prev with
  | nil => rfl
  | cons c t ih =>
    have hrest : (c :: humps (some c) t).filter isAlphanumeric =
        (c :: t).filter isAlphanumeric := by rw [List.filter_cons, ih, ← List.filter_cons]
    simp only [humps]
    split
    · rw [List.filter_cons_of_neg (by decide), hrest]
    · exact hrest

theorem humps_of_no_capital {t : Text} (h : ∀ c ∈ t, isAsciiUpper c = false)
    (prev : Option Char) : humps prev t = t := by
  induction t generalizing prev with
  | nil => rfl
  | cons c t ih =>
    simp only [humps, h c List.mem_cons_self, Bool.false_and, Bool.false_eq_true, if_false]
    rw [ih fun d hd => h d (List.mem_cons_of_mem c hd)]

/-! ## Words -/

/-- A lower-case letter or a digit. -/
def isSmall (c : Char) : Bool := isAsciiLower c || isAsciiDigit c

theorem isSmall_asciiLower {c : Char} (h : isAlphanumeric c = true) :
    isSmall (asciiLower c) = true := by
  have hword := forall_isAsciiWord (p := fun c => !isAlphanumeric c || isSmall (asciiLower c))
    (by decide) (isAlphanumeric_iff.mp h).1
  rwa [h] at hword

/-- What is small is in lower case, and neither a capital nor an underscore. -/
theorem of_isSmall {c : Char} (h : isSmall c = true) :
    isAsciiUpper c = false ∧ isAlphanumeric c = true ∧ asciiLower c = c := by
  have halpha : isAlphanumeric c = true := by
    simp only [isSmall, Bool.or_eq_true] at h
    simp only [isAlphanumeric, isAsciiLetter, Bool.or_eq_true]
    exact h.imp_left .inr
  have hword := forall_isAsciiWord (p := fun c => !isSmall c || !isAsciiUpper c)
    (by decide) (isAlphanumeric_iff.mp halpha).1
  rw [h] at hword
  have hupper : isAsciiUpper c = false := by simpa using hword
  exact ⟨hupper, halpha, by rw [asciiLower, if_neg (by simp [hupper])]⟩

/-- Words in lower case. -/
def CleanWords (ws : List Text) : Prop := ∀ w ∈ ws, w ≠ [] ∧ ∀ c ∈ w, isSmall c = true

theorem cleanWords_snakeWords (name : Text) : CleanWords (snakeWords name) := by
  intro w hw
  obtain ⟨run, hrun, rfl⟩ := List.mem_map.mp hw
  refine ⟨by simpa using ne_nil_of_mem_runsOf hrun, fun c hc => ?_⟩
  obtain ⟨d, hd, rfl⟩ := List.mem_map.mp hc
  exact isSmall_asciiLower (of_mem_runsOf hrun d hd)

theorem flatten_snakeWords (name : Text) :
    (snakeWords name).flatten = (name.filter isAlphanumeric).map asciiLower := by
  rw [snakeWords, ← List.map_flatten, flatten_runsOf, filter_humps]

/-- Without what separates them, joined pieces stand one behind the other. -/
theorem filter_joinWith {s : Char} {ws : List Text} (h : ∀ w ∈ ws, s ∉ w) :
    (joinWith [s] ws).filter (· != s) = ws.flatten := by
  have hkeep : ∀ w ∈ ws, w.filter (· != s) = w := by
    intro w hw
    refine List.filter_eq_self.mpr fun c hc => ?_
    exact bne_iff_ne.mpr fun hcs => h w hw (hcs ▸ hc)
  cases ws with
  | nil => rfl
  | cons w ws =>
    rw [joinWith_cons, List.filter_append, List.filter_flatMap, hkeep w List.mem_cons_self,
      List.flatten_cons, ← List.flatMap_id]
    congr 1
    refine List.flatMap_congr fun v hv => ?_
    rw [List.filter_append, hkeep v (List.mem_cons_of_mem w hv)]
    simp

namespace CleanWords

variable {ws : List Text}

theorem notMem (h : CleanWords ws) : ∀ w ∈ ws, '_' ∉ w := by
  intro w hw hmem
  exact absurd ((h w hw).2 _ hmem) (by decide)

theorem mem_joinWith (h : CleanWords ws) {c : Char} (hc : c ∈ joinWith ['_'] ws) :
    c = '_' ∨ isSmall c = true := by
  cases ws with
  | nil => cases hc
  | cons w ws =>
    rw [joinWith_cons, List.mem_append, List.mem_flatMap] at hc
    rcases hc with hc | ⟨v, hv, hc⟩
    · exact .inr ((h w List.mem_cons_self).2 c hc)
    · rcases List.mem_cons.mp hc with rfl | hc
      · exact .inl rfl
      · exact .inr ((h v (List.mem_cons_of_mem w hv)).2 c hc)

/-- **Clean words are the words of what they are joined to.** -/
theorem snakeWords_joinWith (h : CleanWords ws) : snakeWords (joinWith ['_'] ws) = ws := by
  have hcapital : ∀ c ∈ joinWith ['_'] ws, isAsciiUpper c = false := by
    intro c hc
    rcases h.mem_joinWith hc with rfl | hc
    · decide
    · exact (of_isSmall hc).1
  have hruns : runsOf isAlphanumeric (joinWith ['_'] ws) = ws :=
    runsOf_joinWith (by decide) fun w hw =>
      ⟨(h w hw).1, fun c hc => (of_isSmall ((h w hw).2 c hc)).2.1⟩
  rw [snakeWords, humps_of_no_capital hcapital, hruns]
  refine (List.map_congr_left fun w hw => ?_).trans (List.map_id ws)
  exact (List.map_congr_left fun c hc => (of_isSmall ((h w hw).2 c hc)).2.2).trans (List.map_id w)

end CleanWords

/-- **A name in snake case is clean**: words of small letters and digits, none of them empty, with one
underscore between neighbours.  It has the letters and digits of the name, in lower case, and it is its
own name in snake case. -/
theorem snakeCase_clean (name : Text) :
    (∃ words, (∀ w ∈ words, w ≠ [] ∧ ∀ c ∈ w, isAsciiLower c = true ∨ isAsciiDigit c = true) ∧
      snakeCase name = joinWith ['_'] words) ∧
    (snakeCase name).filter (· != '_') = (name.filter isAlphanumeric).map asciiLower ∧
    snakeCase (snakeCase name) = snakeCase name := by
  have hclean := cleanWords_snakeWords name
  refine ⟨⟨snakeWords name, fun w hw => ⟨(hclean w hw).1, fun c hc => ?_⟩, rfl⟩, ?_, ?_⟩
  · exact Bool.or_eq_true _ _ ▸ (hclean w hw).2 c hc
  · rw [snakeCase, filter_joinWith hclean.notMem, flatten_snakeWords]
  · rw [snakeCase, snakeCase, hclean.snakeWords_joinWith]

/-- Acronyms, digits, and separators of all sorts. -/
example : snakeCase "__HTTPLog2Über-dieV8" = "http_log2_ber_die_v8" := by decide

end EntityScaffold
