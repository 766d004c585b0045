import EntityScaffold.Proofs.Rendered.Properties

/-!
# Constructors that make collections empty

* `constructorOf` — the constructor that makes the given collections empty.
* `assigned_constructorOf_eq` — it assigns to these and to nothing else.
* `tidy_constructorOf` — it is read back.
* `constructorOf_addStatement`, `constructorOf_dropStatement?` — one collection more, and one less.
-/

set_option autoImplicit false

namespace EntityScaffold

open Text

namespace Source

variable {name head : Text} {block : List Text}

theorem methodOf_body_lines (hline : ∀ l ∈ block, '\n' ∉ l) :
    lines (ofLines ([] :: (block ++ [[]]))) = [] :: (block ++ [[]]) := by
  refine lines_ofLines (by simp) fun l hl => ?_
  simp only [List.mem_cons, List.mem_append, List.not_mem_nil, or_false] at hl
  rcases hl with rfl | hl | rfl
  · simp
  · exact hline l hl
  · simp

/-- One more statement at the end of a block. -/
theorem methodOf_addStatement (h : ∀ l ∈ block, Inked l) (statement i : Text) :
    (methodOf name head block).addStatement statement i =
      .ok (methodOf name head (block ++ [i ++ statement])) := by
  have hend : stripEnd (ofLines ([] :: (block ++ [[]]))) = if block = [] then [] else
      ofLines ([] :: block) := by
    cases hb : block with
    | nil => rfl
    | cons l ls =>
      rw [← hb]
      have hne : block ≠ [] := by simp [hb]
      have hfeed : ∀ c ∈ ['\n'], isBlank c = true := by decide
      have hlast : ∀ c ∈ (ofLines ([] :: block)).getLast?, isBlank c = false := by
        intro c hc
        rw [ofLines_cons hne, List.nil_append, ← List.singleton_append,
          getLast?_append_of_ne_nil _ (ofLines_ne_nil hne h)] at hc
        exact last_ofLines hne h c hc
      rw [if_neg hne, ← List.cons_append, ofLines_append_empty (by simp), stripEnd,
        dropEndWhile_append_of_all hfeed, dropEndWhile_of_last hlast]
  have hbody : stripEnd (ofLines ([] :: (block ++ [[]]))) ++ "\n" ++ i ++ statement ++ "\n" =
      ofLines ([] :: ((block ++ [i ++ statement]) ++ [[]])) := by
    rw [hend, ← List.cons_append, ofLines_append_empty (by simp), ← List.cons_append,
      ofLines_append (by simp) (by simp), ofLines_singleton]
    cases block with
    | nil => simp [ofLines_singleton]
    | cons l ls => simp
  simp only [Method.addStatement, methodOf, hbody]

/-- The block without the lines that consist of the statement. -/
theorem methodOf_dropStatement? (hline : ∀ l ∈ block, '\n' ∉ l) {statement : Text}
    (hs : statement ≠ []) :
    (methodOf name head block).dropStatement? statement =
      if block.all (strip · != statement) then none
      else some (methodOf name head (block.filter (strip · != statement))) := by
  have hempty : (strip [] != statement) = true := by
    rw [bne_iff_ne]
    exact Ne.symm hs
  have hkept : ([] :: (block ++ [[]])).filter (strip · != statement) =
      [] :: (block.filter (strip · != statement) ++ [[]]) := by
    simp only [List.filter_cons, List.filter_append, List.filter_nil, hempty, if_true]
  obtain ⟨c, t, hbody⟩ : ∃ c t, ofLines ([] :: (block ++ [[]])) = c :: t :=
    ⟨'\n', _, ofLines_cons (by simp)⟩
  have hlength : (([] :: (block.filter (strip · != statement) ++ [[]])).length =
      ([] :: (block ++ [[]])).length) ↔ block.all (strip · != statement) = true := by
    simp only [List.length_cons, List.length_append, List.all_eq_true, Nat.add_right_cancel_iff]
    exact List.length_filter_eq_length_iff
  rw [Method.dropStatement?]
  simp only [methodOf, hbody]
  rw [← hbody, methodOf_body_lines hline, hkept]
  simp only [hlength]

/-- The block without the line of one of the names, each of which has a line. -/
theorem methodOf_dropStatement?_map {names : List Text} {line statement : Text → Text}
    (hline : ∀ l ∈ names.map line, '\n' ∉ l) (hstrip : ∀ n, strip (line n) = statement n)
    (hinj : ∀ n m, statement n = statement m → n = m) (hne : ∀ n, statement n ≠ []) (n : Text) :
    (methodOf name head (names.map line)).dropStatement? (statement n) =
      if n ∈ names then some (methodOf name head ((names.filter (· != n)).map line)) else none := by
  have hsame : ∀ m, (strip (line m) != statement n) = (m != n) := by
    intro m
    rw [hstrip]
    by_cases hm : m = n
    · simp [hm]
    · rw [bne_iff_ne.mpr fun he => hm (hinj m n he), bne_iff_ne.mpr hm]
  have hall : (names.map line).all (strip · != statement n) = true ↔ n ∉ names := by
    simp only [List.all_map, Function.comp_def, hsame, List.all_eq_true, bne_iff_ne]
    exact ⟨fun h hm => h _ hm rfl, fun hm m hn he => hm (he ▸ hn)⟩
  have hfilter : (names.map line).filter (strip · != statement n) =
      (names.filter (· != n)).map line := by
    simp only [List.filter_map, Function.comp_def, hsame]
  rw [methodOf_dropStatement? hline (hne n), hfilter]
  by_cases hm : n ∈ names
  · rw [if_pos hm, if_neg fun h => hall.mp h hm]
  · rw [if_neg hm, if_pos (hall.mpr hm)]

end Source

open Source

/-- How many lines of the body consist of a statement. -/
def Source.Method.countLines (m : Method) (statement : Text) : Nat :=
  (lines (m.body.getD [])).countP (strip · == statement)

/-! ## Constructors -/

/-- The constructor that makes the collections empty. -/
def constructorOf (i : Text) (collections : List Text) : Method :=
  methodOf constructorName "public function __construct()"
    (collections.map fun property => i ++ Render.collectionInit property)

/-- The rows of such a constructor. -/
def constructorRows (i : Text) (collections : List Text) : List Row :=
  methodRows "public function __construct()"
    (collections.map fun property => i ++ Render.collectionInit property)

theorem emptyConstructor_eq (i : Text) : emptyConstructor = constructorOf i [] := rfl

theorem bareLine_collectionInit {property : Text} (h : Plain property) :
    BareLine (Render.collectionInit property) := by
  have hpieces : (Row.ofPieces [.code "$this->", .name property, .code " = [];"]).text =
      Render.collectionInit property := by
    have hassoc : ∀ a p e : Text, a ++ (p ++ (e ++ [])) = a ++ p ++ e := by
      intros
      simp only [List.append_assoc, List.append_nil]
    exact hassoc _ _ _
  rw [← hpieces]
  refine bareLine_ofPieces rfl rfl fun p hp => ?_
  simp only [List.mem_cons, List.not_mem_nil, or_false] at hp
  rcases hp with rfl | rfl | rfl
  exacts [trivial, h, trivial]

section

variable {i : Text} {collections : List Text}

theorem bareLine_constructorOf (hi : IsIndent i) (h : ∀ p ∈ collections, Plain p) :
    ∀ l ∈ collections.map (fun p => i ++ Render.collectionInit p), BareLine l := by
  intro l hl
  obtain ⟨p, hp, rfl⟩ := List.mem_map.mp hl
  exact (bareLine_collectionInit (h p hp)).indented hi

/-- **A constructor that makes collections empty is tidy.** -/
theorem tidy_constructorOf (hi : IsIndent i) (h : ∀ p ∈ collections, Plain p) :
    Tidy (.method (constructorOf i collections)) (constructorRows i collections) := by
  have hhead : BareLine "public function __construct()" := by
    have hpieces : (Row.ofPieces [.code "public function __construct()"]).text =
        "public function __construct()" := List.append_nil _
    rw [← hpieces]
    refine bareLine_ofPieces rfl rfl fun p hp => ?_
    rw [List.mem_singleton.mp hp]
    trivial
  have hstart : ("public function __construct()" : Text) =
      "public " ++ ("function " ++ (constructorName ++ '(' :: ")")) := by decide
  exact tidy_methodOf ⟨by decide, by decide⟩ hhead (by decide) hstart (bareLine_constructorOf hi h)

/-- The body of such a constructor is code throughout. -/
theorem assigned_eq_assignments (hi : IsIndent i) (h : ∀ p ∈ collections, Plain p) :
    (constructorOf i collections).assigned = .ok (assignments
      (ofLines ([] :: (collections.map (fun p => i ++ Render.collectionInit p) ++ [[]])))) := by
  have hcode : ∀ c ∈ ofLines ([] :: (collections.map (fun p => i ++ Render.collectionInit p) ++
      [[]])), isCode c = true := by
    refine ofLines_induction (P := fun t => ∀ c ∈ t, isCode c = true) (by simp) (by decide) ?_ ?_
    · intro s t hs ht c hc
      rcases List.mem_append.mp hc with hc | hc
      · exact hs c hc
      · exact ht c hc
    · intro l hl
      simp only [List.mem_cons, List.mem_append, List.not_mem_nil, or_false] at hl
      rcases hl with rfl | hl | rfl
      · simp
      · exact (bareLine_constructorOf hi h l hl).code
      · simp
  have hmask := mask_of_shows (.code hcode)
  exact congrArg (Except.map assignments) hmask

/-- The body of such a constructor can be read. -/
theorem assigned_constructorOf (hi : IsIndent i) (h : ∀ p ∈ collections, Plain p) :
    ∃ names, (constructorOf i collections).assigned = .ok names :=
  ⟨_, assigned_eq_assignments hi h⟩

/-! ### What such a constructor assigns to -/

theorem assignmentsFrom_skip (s t : Text) : assignmentsFrom s.length (s ++ t) = assignmentsFrom 0 t := by
  induction s with
  | nil => rfl
  | cons c s ih => exact ih

theorem assignmentsFrom_of_notMem {s : Text} (h : '$' ∉ s) (t : Text) :
    assignmentsFrom 0 (s ++ t) = assignmentsFrom 0 t := by
  induction s with
  | nil => rfl
  | cons c s ih =>
    simp only [List.mem_cons, not_or] at h
    have hnone : assignment? (c :: (s ++ t)) = none := by
      have hafter : after? "$this" (c :: (s ++ t)) = none := if_neg h.1
      simp only [assignment?, hafter]
      rfl
    rw [List.cons_append, assignmentsFrom, hnone]
    exact ih h.2

/-- The statement that makes a collection empty, in the parts that are read of it. -/
theorem collectionInit_append (p t : Text) :
    Render.collectionInit p ++ t = "$this" ++ ("->" ++ (p ++ (" =" ++ (" [];" ++ t)))) := by
  have hfront : ("$this->" : Text) = "$this" ++ "->" := by decide
  have hend : (" = [];" : Text) = " =" ++ " [];" := by decide
  have hassoc : ∀ a b c d : Text, (a ++ b) ++ p ++ (c ++ d) ++ t = a ++ (b ++ (p ++ (c ++ (d ++ t)))) := by
    intros
    simp only [List.append_assoc]
  rw [← hassoc, ← hfront, ← hend]
  rfl

/-- The property that is made empty is assigned to. -/
theorem assignment?_collectionInit {p : Text} (hp : Name p) (t : Text) :
    assignment? (Render.collectionInit p ++ t) =
      some (p, (Render.collectionInit p ++ t).length - (" [];" ++ t).length) := by
  have hname : skipBlanks (p ++ (" =" ++ (" [];" ++ t))) = p ++ (" =" ++ (" [];" ++ t)) := by
    obtain ⟨c, q, rfl⟩ : ∃ c q, p = c :: q := List.exists_cons_of_ne_nil fun hnil => by
      rw [hnil] at hp
      cases hp.start
    exact List.dropWhile_cons_of_neg (by simp [isBlank_of_isAsciiWord (hp.plain c List.mem_cons_self)])
  have hread : name? (p ++ (" =" ++ (" [];" ++ t))) = some (p, " =" ++ (" [];" ++ t)) :=
    hp.read fun d hd => by
      cases hd
      decide
  have harrow : ∀ u : Text, skipBlanks ("->" ++ u) = "->" ++ u := fun _ => rfl
  have hequal : ∀ u : Text, skipBlanks (" =" ++ u) = "=" ++ u := fun _ => rfl
  have hnext : ∀ u : Text, (" [];" ++ u : Text).head? = some ' ' := fun _ => rfl
  rw [assignment?, collectionInit_append]
  simp only [after?_append, harrow, hname, hread, hequal, hnext, Option.bind_eq_bind,
    Option.bind_some]
  rfl

/-- **What makes a collection empty assigns to it, and to nothing else.** -/
theorem assignmentsFrom_collectionInit {p : Text} (hp : Name p) (t : Text) :
    assignmentsFrom 0 (Render.collectionInit p ++ t) = p :: assignmentsFrom 0 t := by
  have hread := assignment?_collectionInit hp t
  -- the statement up to the equals sign, without its first character, and what is behind it
  have hassoc : ∀ a b c d : Text, a ++ (b ++ (p ++ (c ++ d))) = (a ++ (b ++ (p ++ c))) ++ d := by
    intros
    simp only [List.append_assoc]
  have hs : Render.collectionInit p ++ t =
      '$' :: (("this" ++ ("->" ++ (p ++ " ="))) ++ (" [];" ++ t)) := by
    rw [collectionInit_append]
    exact congrArg ('$' :: ·) (hassoc "this" "->" " =" (" [];" ++ t))
  rw [hs, List.length_cons, List.length_append, Nat.add_right_comm, Nat.add_sub_cancel] at hread
  rw [hs, assignmentsFrom, hread]
  simp only [Nat.add_sub_cancel]
  rw [assignmentsFrom_skip, assignmentsFrom_of_notMem (by decide)]

/-- **A constructor that makes collections empty assigns to these and to nothing else.** -/
theorem assigned_constructorOf_eq (hi : IsIndent i) (h : ∀ p ∈ collections, Name p) :
    (constructorOf i collections).assigned = .ok collections := by
  have hlines : ∀ ps : List Text, (∀ p ∈ ps, Name p) →
      assignmentsFrom 0 (ofLines (ps.map (fun p => i ++ Render.collectionInit p) ++ [[]])) = ps := by
    intro ps hps
    induction ps with
    | nil => rfl
    | cons p ps ih =>
      rw [List.map_cons, List.cons_append, ofLines_cons (by simp), List.append_assoc,
        assignmentsFrom_of_notMem (hi.notMem (by decide)),
        assignmentsFrom_collectionInit (hps p List.mem_cons_self)]
      congr 1
      exact ih fun q hq => hps q (List.mem_cons_of_mem p hq)
  rw [assigned_eq_assignments hi fun p hp => (h p hp).plain, assignments, ofLines_cons (by simp)]
  exact congrArg Except.ok (hlines collections h)

/-- **One more collection to make empty.** -/
theorem constructorOf_addStatement (hi : IsIndent i) (h : ∀ p ∈ collections, Plain p)
    (property : Text) :
    (constructorOf i collections).addStatement (Render.collectionInit property) i =
      .ok (constructorOf i (collections ++ [property])) := by
  rw [constructorOf, methodOf_addStatement fun l hl => (bareLine_constructorOf hi h l hl).sound.inked]
  simp [constructorOf]

theorem collectionInit_injective {p q : Text}
    (h : Render.collectionInit p = Render.collectionInit q) : p = q := by
  have hcancel : ∀ a e : Text, a ++ p ++ e = a ++ q ++ e → p = q := by
    intro a e he
    simpa using he
  exact hcancel _ _ h

theorem collectionInit_ne_nil (p : Text) : Render.collectionInit p ≠ [] := by
  obtain ⟨t, ht⟩ : ∃ t, Render.collectionInit p = '$' :: t := ⟨_, rfl⟩
  simp [ht]

/-- The statement that makes a collection empty, found behind an indentation. -/
theorem strip_collectionInit (hi : IsIndent i) (property : Text) :
    strip (i ++ Render.collectionInit property) = Render.collectionInit property := by
  have hend : ∀ a p e : Text, e ≠ [] → (a ++ p ++ e).getLast? = e.getLast? := fun a p e he =>
    getLast?_append_of_ne_nil (a ++ p) he
  have hlast : (Render.collectionInit property).getLast? = some ';' :=
    hend "$this->" property " = [];" (by decide)
  have hfirst : (Render.collectionInit property).head? = some '$' := rfl
  refine strip_append (fun c hc => isBlank_of_isSpaceTab (hi c hc)) ?_ ?_
  · rw [hfirst]
    rintro c ⟨⟩
    decide
  · rw [hlast]
    rintro c ⟨⟩
    decide

/-- **Each collection has one line for each time it is named.** -/
theorem countLines_constructorOf (hi : IsIndent i) (h : ∀ p ∈ collections, Plain p)
    (property : Text) : (constructorOf i collections).countLines (Render.collectionInit property) =
      collections.count property := by
  have hline : ∀ l ∈ collections.map (fun p => i ++ Render.collectionInit p), '\n' ∉ l :=
    fun l hl => (bareLine_constructorOf hi h l hl).sound.inked.oneLine
  have hempty : (strip [] == Render.collectionInit property) = false :=
    beq_eq_false_iff_ne.mpr (Ne.symm (collectionInit_ne_nil property))
  have hsame : ∀ p, (strip (i ++ Render.collectionInit p) == Render.collectionInit property) =
      (p == property) := by
    intro p
    rw [strip_collectionInit hi, Bool.eq_iff_iff, beq_iff_eq, beq_iff_eq]
    exact ⟨collectionInit_injective, fun he => he ▸ rfl⟩
  have hlines : lines ((constructorOf i collections).body.getD []) = _ := methodOf_body_lines hline
  rw [Method.countLines, hlines, List.countP_cons, List.countP_append, List.countP_map, hempty,
    List.countP_singleton, hempty]
  simp only [Function.comp_def, hsame, List.count]
  rfl

/-- **One collection less to make empty.** -/
theorem constructorOf_dropStatement? (hi : IsIndent i) (h : ∀ p ∈ collections, Plain p)
    (property : Text) :
    (constructorOf i collections).dropStatement? (Render.collectionInit property) =
      if property ∈ collections then some (constructorOf i (collections.filter (· != property)))
      else none :=
  methodOf_dropStatement?_map
    (fun l hl => (bareLine_constructorOf hi h l hl).sound.inked.oneLine)
    (strip_collectionInit hi) (fun _ _ => collectionInit_injective) collectionInit_ne_nil property

end

end EntityScaffold
