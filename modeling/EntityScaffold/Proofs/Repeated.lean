import EntityScaffold.Proofs.Bystanders
import EntityScaffold.Proofs.Histories
import EntityScaffold.Proofs.Source.Stopping
import EntityScaffold.Proofs.Source.Stripped

/-!
# Calls made again

Whoever has written a class, a call that has been made on it may be made again: it finds its
property, its accessors and its statement in their places and puts each of them in the place of
itself.  There is one exception, a constructor in the code of which three arrows stand that open no
heredoc.  The statement begins a line behind them, and then they may open one.

* `placeProperty_self`, `placeMethods_self`, `dropCollectionInit_self` — what is there already
  stays.
* `placeAccessors_again` — the accessors of a property, placed where they have been placed.
* `Method.assigned_addStatement` — the statement that has been added is found in the constructor.
* `fieldAdded_again`, `relationAdded_again`, `Call.again` — the edits.
-/

set_option autoImplicit false

namespace EntityScaffold

open Text Source Edit

/-! ## Members in their own places -/

section

variable {f : ClassFile}

/-- An item in the place of itself. -/
theorem Source.modifyFirst_self {α : Type} {select : Member → Option α} {q : α → Bool}
    {p : Item → Bool} {new : Member} {x : α} {items : List Item} (hgap : p .gap = false)
    (hp : ∀ m, p (.member m) = (select m).any q) (hnew : ∀ m, select m = some x → m = new)
    (h : ((membersOf items).filterMap select).find? q = some x) :
    modifyFirst p (fun _ => .member new) items = items := by
  induction items with
  | nil => rfl
  | cons item items ih =>
    cases item with
    | gap => rw [modifyFirst, hgap, if_neg Bool.false_ne_true, ih h]
    | member m =>
      rw [membersOf_member] at h
      rw [modifyFirst, hp]
      cases hm : select m with
      | none =>
        rw [List.filterMap_cons_none hm] at h
        rw [Option.any_none, if_neg Bool.false_ne_true, ih h]
      | some y =>
        rw [List.filterMap_cons_some hm, List.find?_cons] at h
        rw [Option.any_some]
        cases hy : q y with
        | true =>
          rw [hy] at h
          cases h
          rw [if_pos rfl, hnew m hm]
        | false =>
          rw [hy] at h
          rw [if_neg Bool.false_ne_true, ih h]

theorem placeProperty_self {name : Text} {p : Property} (h : f.findProperty? name = some p) :
    placeProperty name p f = f := by
  have hitems : modifyFirst (·.isPropertyNamed name) (fun _ => .member (.property p)) f.items =
      f.items := by
    refine modifyFirst_self rfl (fun m => ?_) (fun m hm => ?_) h
    · cases m <;> rfl
    · cases m <;> cases hm
      rfl
  rw [placeProperty, h, Option.isSome_some, if_pos rfl, ClassFile.replaceProperty, hitems]

theorem placeMethod_self {m : Method} (h : f.findMethod? m.name = some m) :
    placeMethod f m = f := by
  have hitems : modifyFirst (·.isMethodNamed m.name) (fun _ => .member (.method m)) f.items =
      f.items := by
    refine modifyFirst_self rfl (fun k => ?_) (fun k hk => ?_) h
    · cases k <;> rfl
    · cases k <;> cases hk
      rfl
  rw [placeMethod, h, Option.isSome_some, if_pos rfl, ClassFile.replaceMethod, hitems]

theorem placeMethods_self {ms : List Method} {stale : List Text}
    (hms : ∀ m ∈ ms, f.findMethod? m.name = some m)
    (hstale : ∀ name ∈ stale, ms.any (ClassFile.isMethodNamed name) = true) :
    placeMethods ms stale f = f := by
  have hgone : (stale.filter fun name => !ms.any (ClassFile.isMethodNamed name)) = [] :=
    List.filter_eq_nil_iff.mpr fun name hname => by simp [hstale name hname]
  rw [placeMethods, hgone, List.foldl_nil]
  clear hgone hstale
  induction ms with
  | nil => rfl
  | cons m ms ih =>
    rw [List.foldl_cons, placeMethod_self (hms m List.mem_cons_self)]
    exact ih fun k hk => hms k (List.mem_cons_of_mem m hk)

/-- Methods that have been placed are found. -/
theorem findMethod?_of_placed {ms : List Method} {stale : List Text} {m : Method}
    (hn : (ms.map Method.key).Nodup) (hm : m ∈ ms) :
    (placeMethods ms stale f).findMethod? m.name = some m := by
  rw [placeMethods]
  generalize (stale.filter fun name => !ms.any (ClassFile.isMethodNamed name)).foldl
    ClassFile.removeMethod f = g
  induction ms generalizing g with
  | nil => cases hm
  | cons k ms ih =>
    obtain ⟨hk, hrest⟩ := List.nodup_cons.mp hn
    rw [List.foldl_cons]
    rcases List.mem_cons.mp hm with rfl | hm
    · -- those placed behind it have other names
      have hkept : (placeMethods ms [] (placeMethod g m)).findMethod? m.name =
          (placeMethod g m).findMethod? m.name :=
        findMethod?_placeMethods (fun l hl heq => hk (List.mem_map.mpr ⟨l, hl, heq.symm⟩)) (by simp)
      exact hkept.trans (put_placeMethod m).find?_self
    · exact ih hrest hm (placeMethod g k)

end

/-! ## Accessors in their own places -/

/-- The names that are read off a property are names of accessors. -/
theorem exists_accessor_of_mem {p : Property} {name : Text} (h : name ∈ Edit.accessorNames p) :
    ∃ a : Accessor, a.name = name := by
  rw [Edit.accessorNames] at h
  split at h
  · split at h
    · rcases List.mem_cons.mp h with rfl | h
      · exact ⟨.getter _ [], rfl⟩
      · split at h
        · simp only [List.mem_cons, List.not_mem_nil, or_false] at h
          rcases h with rfl | rfl
          exacts [⟨.adder [] _, rfl⟩, ⟨.remover [] _, rfl⟩]
        · cases h
    · simp only [List.mem_cons, List.not_mem_nil, or_false] at h
      rcases h with rfl | rfl | rfl
      exacts [⟨.getter _ [], rfl⟩, ⟨.setter _ [], rfl⟩, ⟨.clear _, rfl⟩]
  · split at h
    · simp only [List.mem_cons, List.not_mem_nil, or_false] at h
      rcases h with rfl | rfl
      exacts [⟨.getter _ [], rfl⟩, ⟨.setter _ [], rfl⟩]
    · cases h

section

variable {f k : ClassFile} {p : Property} {d : Definition} {i : Text}

/-- What is read off a property does not make the constructor one of its accessors. -/
theorem lower_ne_of_mem_staleAccessors {property name : Text}
    (h : name ∈ staleAccessors f property) : lower name ≠ constructorName := by
  rw [staleAccessors] at h
  cases hq : f.findProperty? property with
  | none =>
    rw [hq] at h
    cases h
  | some q =>
    rw [hq] at h
    obtain ⟨a, rfl⟩ := exists_accessor_of_mem h
    exact a.lower_name_ne

/-- **Accessors are placed beside the constructor.** -/
theorem constructor?_placeAccessors {as : List Accessor} {ms : List Method}
    (hms : ms.map Method.name = as.map Accessor.name) (name : Text) :
    (placeMethods ms (staleAccessors f name) k).constructor? = k.constructor? := by
  refine findMethod?_placeMethods (fun m hm => ?_) fun other hother => ?_
  · have hname : m.name ∈ as.map Accessor.name := hms ▸ List.mem_map_of_mem hm
    obtain ⟨a, -, ha⟩ := List.mem_map.mp hname
    rw [lower_constructorName, Method.key, ← ha]
    exact a.lower_name_ne.symm
  · rw [lower_constructorName]
    exact (lower_ne_of_mem_staleAccessors hother).symm

/-- **Accessors that have been placed are placed where they are.** -/
theorem placeAccessors_again (hp : p.DeclaredAs d) {stale : List Text}
    {g : ClassFile} (hg : g = placeMethods ((d.accessors p.name).map (·.method i)) stale k)
    (hfound : g.findProperty? p.name = some p) :
    placeMethods ((d.accessors p.name).map (·.method i)) (staleAccessors g p.name) g = g := by
  refine placeMethods_self (fun m hm => ?_) fun name hname => ?_
  · rw [hg]
    exact findMethod?_of_placed (d.nodup_accessors p.name i) hm
  · rw [staleAccessors, hfound] at hname
    obtain ⟨a, ha, rfl⟩ := List.mem_map.mp (hp.mem_accessorNames.mp hname)
    exact List.any_eq_true.mpr ⟨a.method i, List.mem_map_of_mem ha, BEq.rfl⟩

end

/-! ## The constructor -/

/-- A statement that has been dropped is not found again. -/
theorem Source.Method.dropStatement?_again {m k : Method} {statement : Text}
    (h : m.dropStatement? statement = some k) : k.dropStatement? statement = none := by
  obtain ⟨body, -, rfl⟩ := of_dropStatement? h
  have hkept : ∀ l ∈ (lines body).filter (strip · != statement), '\n' ∉ l ∧
      (strip l != statement) = true := fun l hl =>
    ⟨notMem_of_mem_lines (List.mem_filter.mp hl).1, (List.mem_filter.mp hl).2⟩
  generalize (lines body).filter (strip · != statement) = kept at hkept
  rw [Method.dropStatement?]
  cases kept with
  | nil => rfl
  | cons l ls =>
    have hlines : lines (ofLines (l :: ls)) = l :: ls :=
      lines_ofLines (by simp) fun l hl => (hkept l hl).1
    have hall : (l :: ls).filter (strip · != statement) = l :: ls :=
      List.filter_eq_self.mpr fun l hl => (hkept l hl).2
    split
    · rfl
    · rfl
    · rename_i body' _ hbody
      obtain rfl : ofLines (l :: ls) = body' := Option.some.inj hbody
      simp only [hlines, hall, if_true]

section

variable {f g : ClassFile} {property : Text}

theorem dropCollectionInit_self
    (h : f.constructor?.bind (·.dropStatement? (Render.collectionInit property)) = none) :
    dropCollectionInit property f = f := by
  rw [dropCollectionInit, h]

/-- **The statement of a collection is dropped once.** -/
theorem dropStatement?_of_dropped :
    (dropCollectionInit property f).constructor?.bind
      (·.dropStatement? (Render.collectionInit property)) = none := by
  cases hk : f.constructor?.bind (·.dropStatement? (Render.collectionInit property)) with
  | none => rw [dropCollectionInit_self hk, hk]
  | some k =>
    obtain ⟨m, hm, hdrop⟩ := Option.bind_eq_some_iff.mp hk
    have hkey : k.key = constructorName := by
      obtain ⟨body, -, rfl⟩ := of_dropStatement? hdrop
      have hsame := key_constructor? hm
      exact hsame
    simp only [dropCollectionInit, hk, constructor?_replaceMethod hm hkey, Option.bind_some]
    exact Method.dropStatement?_again hdrop

theorem constructor?_withConstructor :
    f.withConstructor.constructor? = some (f.constructor?.getD emptyConstructor) := by
  cases hc : f.constructor? with
  | some m =>
    rw [ClassFile.withConstructor, hc, Option.isSome_some, if_pos rfl]
    exact hc
  | none =>
    have hfresh : ∀ m ∈ f.methods, m.key ≠ emptyConstructor.key := by
      intro m hm hkey
      have hsome : f.constructor?.isSome = true := f.findMethod?_isSome_iff.mpr ⟨m, hm, hkey⟩
      rw [hc] at hsome
      cases hsome
    obtain ⟨s, t, hms, hnew⟩ := insertBefore_split (.method emptyConstructor) f.members
    rw [← f.members_withConstructor hc] at hnew
    have hput : Put Method.key emptyConstructor f.methods f.withConstructor.methods :=
      put_of_split rfl hms hnew hfresh
    exact hput.find?_self

end

/-- An assignment does not go on behind the next dollar sign. -/
theorem size_of_assignment? {c : Char} {s u name : Text} {size : Nat}
    (h : assignment? (c :: (s ++ '$' :: u)) = some (name, size)) : size ≤ s.length + 1 := by
  have hstop : ∀ {f : Text → Option Text} {t r : Text}, StopsAt '$' f →
      f (t ++ '$' :: u) = some r → ∃ t', r = t' ++ '$' :: u := by
    intro f t r hf hr
    rcases hf t with hnone | ⟨t', ht'⟩
    · rw [hnone] at hr
      cases hr
    · rw [ht'] at hr
      exact ⟨t', (Option.some.inj hr).symm⟩
  have hskip : ∀ t : Text, skipBlanks (t ++ '$' :: u) = skipBlanks t ++ '$' :: u :=
    fun t => dropWhile_append_stop (by decide) t u
  simp only [assignment?, Option.bind_eq_bind, Option.bind_eq_some_iff, Prod.exists] at h
  obtain ⟨u₁, h₁, u₂, h₂, n, u₃, h₃, u₄, h₄, h⟩ := h
  -- what is left begins in front of that sign
  obtain ⟨t₁, rfl⟩ : ∃ t', u₁ = t' ++ '$' :: u := by
    rw [show ("$this" : Text) = '$' :: "this" from rfl, after?] at h₁
    split at h₁
    · exact hstop (stopsAt_after? (by decide)) h₁
    · cases h₁
  rw [hskip] at h₂
  obtain ⟨t₂, rfl⟩ := hstop (stopsAt_after? (by decide)) h₂
  rw [hskip] at h₃
  obtain ⟨t₃, rfl⟩ : ∃ t', u₃ = t' ++ '$' :: u := by
    rcases name?_stop (d := '$') (by decide) (by decide) (skipBlanks t₂) with hnone | ⟨_, t', ht'⟩
    · rw [hnone] at h₃
      cases h₃
    · rw [ht'] at h₃
      exact ⟨t', (Prod.mk.inj (Option.some.inj h₃)).2.symm⟩
  rw [hskip] at h₄
  obtain ⟨t₄, rfl⟩ := hstop (stopsAt_after? (by decide)) h₄
  split at h
  · cases h
  · obtain ⟨-, rfl⟩ := Prod.mk.inj (Option.some.inj h)
    simp only [List.length_cons, List.length_append]
    omega

/-- **A statement that makes a collection empty is found**, whatever stands in front of it. -/
theorem mem_assignmentsFrom {property : Text} (hp : Name property) (s t : Text) {skip : Nat}
    (hskip : skip ≤ s.length) :
    property ∈ assignmentsFrom skip (s ++ (Render.collectionInit property ++ t)) := by
  obtain ⟨u, hu⟩ : ∃ u, Render.collectionInit property ++ t = '$' :: u := ⟨_, rfl⟩
  induction s generalizing skip with
  | nil =>
    obtain rfl : skip = 0 := Nat.le_zero.mp hskip
    rw [List.nil_append, assignmentsFrom_collectionInit hp]
    exact List.mem_cons_self
  | cons c s ih =>
    rw [List.length_cons] at hskip
    cases skip with
    | succ skip => exact ih (Nat.le_of_succ_le_succ hskip)
    | zero =>
      rw [List.cons_append, assignmentsFrom]
      cases h : assignment? (c :: (s ++ (Render.collectionInit property ++ t))) with
      | none => exact ih (Nat.zero_le _)
      | some found =>
        obtain ⟨name, size⟩ := found
        rw [hu] at h
        have hsize := size_of_assignment? h
        exact List.mem_cons_of_mem name (ih (by omega))

/-- No arrows stand in the code of the method but those that open heredocs. -/
def Source.Method.ArrowFree (m : Method) : Prop :=
  ∀ body ls, m.body = some body → lexemes body = .ok ls → .code "<<<" ∉ ls

/-- The mask of a body at the end of which a collection is made empty shows the statement. -/
theorem mask_addStatement {i property body : Text} {ls : List Lexeme} (hi : IsIndent i)
    (hp : Plain property) (hls : lexemes body = .ok ls) (harrows : .code "<<<" ∉ ls) :
    ∃ s, mask (stripEnd body ++ "\n" ++ i ++ Render.collectionInit property ++ "\n") =
      .ok (s ++ (Render.collectionInit property ++ ['\n'])) := by
  -- without the blanks at its end the body has its lexemes, and a line feed may follow
  obtain ⟨u, hu, hblank⟩ := exists_dropEndWhile isBlank body
  have hread := lexemes_eq_ok_iff.mp hls
  rw [hu] at hread
  obtain ⟨ks, hks, hsub, -⟩ := hread.strip hblank
  have harrows' : .code "<<<" ∉ ks := fun hmem => by
    rcases hsub _ hmem with hmem | ⟨r, hr⟩
    · exact harrows hmem
    · cases hr
  have hlexed : Lexed (stripEnd body) (ks ++ [.code ['\n']]) :=
    lexed_of_lineFeed (s := []) (by rwa [List.append_nil]) (by simp) harrows'
  have hcode : ∀ c ∈ i ++ (Render.collectionInit property ++ ['\n']), isCode c = true := by
    intro c hc
    rcases List.mem_append.mp hc with hc | hc
    · exact isCode_of_isBlank (isBlank_of_isSpaceTab (hi c hc))
    · rcases List.mem_append.mp hc with hc | hc
      · exact (bareLine_collectionInit hp).code c hc
      · rw [List.mem_singleton.mp hc]
        decide
  have hwhole := (hlexed _).append (reads_code hcode [])
  rw [List.append_nil] at hwhole
  have htext : stripEnd body ++ "\n" ++ i ++ Render.collectionInit property ++ "\n" =
      stripEnd body ++ '\n' :: (i ++ (Render.collectionInit property ++ ['\n'])) := by
    simp only [List.append_assoc]
    rfl
  refine ⟨(ks ++ [Lexeme.code ['\n']]).flatMap Lexeme.shown ++ i, ?_⟩
  rw [htext, mask, lexemes_eq_ok_iff.mpr hwhole]
  refine congrArg Except.ok ?_
  simp only [List.flatMap_append, flatMap_shown_code, List.append_assoc]

/-- **A statement that has been added is found in the method.** -/
theorem Source.Method.assigned_addStatement {m k : Method} {i property : Text} {names : List Text}
    (hi : IsIndent i) (hp : Name property) (harrows : m.ArrowFree)
    (hnames : m.assigned = .ok names)
    (hk : m.addStatement (Render.collectionInit property) i = .ok k) :
    ∃ names, k.assigned = .ok names ∧ property ∈ names := by
  obtain ⟨body, hbody, rfl⟩ := of_addStatement hk
  simp only [Method.assigned, hbody] at hnames
  cases hls : lexemes body with
  | error e =>
    rw [mask, hls] at hnames
    cases hnames
  | ok ls =>
    obtain ⟨s, hs⟩ := mask_addStatement hi hp.plain hls (harrows body ls hbody hls)
    refine ⟨assignments (s ++ (Render.collectionInit property ++ ['\n'])), ?_, ?_⟩
    · simp only [Method.assigned, hs]
      rfl
    · exact mem_assignmentsFrom hp s ['\n'] (Nat.zero_le _)

theorem arrowFree_emptyConstructor : emptyConstructor.ArrowFree := by
  rintro body ls hbody hls
  obtain rfl : ['\n'] = body := Option.some.inj hbody
  have hread : Reads ['\n'] [.code ['\n']] [] := reads_code (b := ['\n']) (by decide) []
  cases (lexemes_eq_ok_iff.mpr hread).symm.trans hls
  decide

section

variable {f g : ClassFile} {property : Text}

/-- **A collection that has been made empty is assigned to.** -/
theorem assigned_of_collectionEnsured (hi : IsIndent f.indent) (hp : Name property)
    (harrows : ∀ m ∈ f.constructor?, m.ArrowFree) (h : collectionEnsured property f = .ok g) :
    ∃ m names, g.constructor? = some m ∧ m.assigned = .ok names ∧ property ∈ names := by
  obtain ⟨m, hm, hfree⟩ : ∃ m, f.withConstructor.constructor? = some m ∧ m.ArrowFree := by
    refine ⟨_, constructor?_withConstructor, ?_⟩
    cases hc : f.constructor? with
    | none => exact arrowFree_emptyConstructor
    | some m => exact harrows m hc
  rw [collectionEnsured, statementEnsured, hm] at h
  cases hnames : m.assigned with
  | error e =>
    simp only [hnames] at h
    cases h
  | ok names =>
    simp only [hnames] at h
    split at h
    · rename_i hmem
      cases h
      exact ⟨m, names, hm, hnames, List.contains_iff_mem.mp hmem⟩
    · cases hk : m.addStatement (Render.collectionInit property) f.withConstructor.indent with
      | error e =>
        rw [hk] at h
        cases h
      | ok k =>
        rw [hk] at h
        cases h
        rw [← (frame_withConstructor f).indent] at hk
        obtain ⟨names', hnames', hmem⟩ := Method.assigned_addStatement hi hp hfree hnames hk
        refine ⟨k, names', constructor?_replaceMethod hm ?_, hnames', hmem⟩
        obtain ⟨body, -, rfl⟩ := of_addStatement hk
        have hsame := key_constructor? hm
        exact hsame

theorem collectionEnsured_self {m : Method} {names : List Text} (hm : f.constructor? = some m)
    (hnames : m.assigned = .ok names) (hmem : property ∈ names) :
    collectionEnsured property f = .ok f := by
  have hwith : f.withConstructor = f := by
    rw [ClassFile.withConstructor, hm]
    rfl
  rw [collectionEnsured, hwith, statementEnsured, hm]
  simp only [hnames, List.contains_iff_mem.mpr hmem, if_true]

end

/-! ## The edits -/

section

variable {i : Text}

/-- **A field that has been added is added again without a change**, to any class. -/
theorem fieldAdded_again {name php : Text} (hname : Name name) (hphp : IsFieldType php)
    (type : FieldType) (nullable : Bool) (f : ClassFile) :
    fieldAdded i name type php nullable (fieldAdded i name type php nullable f) =
      fieldAdded i name type php nullable f := by
  generalize hg : fieldAdded i name type php nullable f = g
  have hdeclared := declaredAs_fieldProperty hname hphp type nullable
  have hfound : g.findProperty? name = some (fieldProperty name type php nullable) := by
    rw [← hg, findProperty?_fieldAdded, if_pos rfl]
  have hconstructor : g.constructor? = (dropCollectionInit name f).constructor? := by
    rw [← hg]
    exact (constructor?_placeAccessors (Accessor.names_method i _) name).trans
      (findMethod?_placeProperty name _)
  have hdropped : dropCollectionInit name g = g := by
    refine dropCollectionInit_self ?_
    rw [hconstructor]
    exact dropStatement?_of_dropped
  rw [fieldAdded, hdropped, placeProperty_self hfound]
  exact placeAccessors_again hdeclared hg.symm hfound

/-- **A relation that has been added is added again without a change**, unless arrows stand in the
code of the constructor. -/
theorem relationAdded_again {r : Relation} {property target : Text} {f g : ClassFile}
    (hi : IsIndent f.indent) (hproperty : Name property) (htarget : Capital target)
    (hother : ∀ o ∈ r.otherProperty, Plain o) (hjoin : ∀ j ∈ r.joinTable, j.IsPlain)
    (harrows : ∀ m ∈ f.constructor?, m.ArrowFree)
    (h : relationAdded i r property target f = .ok g) :
    relationAdded i r property target g = .ok g := by
  have hdeclared : (relationProperty r property target).DeclaredAs (.ofRelation r.kind target) :=
    .relation hproperty htarget hother hjoin
  have hfound : g.findProperty? property = some (relationProperty r property target) := by
    rw [findProperty?_relationAdded h, if_pos rfl]
  have haccessors := Definition.accessors_ofRelation r.kind property target
  rw [relationAdded] at h ⊢
  rw [placeProperty_self hfound]
  -- what the first call has made of the constructor
  generalize hplaced : placeProperty property (relationProperty r property target) f = placed at h
  have hindent : IsIndent placed.indent := by
    rw [← hplaced, ← (frame_placeProperty f _ _).indent]
    exact hi
  have hfree : ∀ m ∈ placed.constructor?, m.ArrowFree := by
    rw [← hplaced, ClassFile.constructor?, findMethod?_placeProperty]
    exact harrows
  cases hchanged : (if r.kind.isCollection then collectionEnsured property placed
      else .ok (dropCollectionInit property placed)) with
  | error e =>
    rw [hchanged] at h
    cases h
  | ok k =>
    rw [hchanged] at h
    have hg : g = placeMethods ((relationAccessors r.kind property target).map (·.method i))
        (staleAccessors f property) k := (Except.ok.inj h).symm
    have hconstructor : g.constructor? = k.constructor? := by
      rw [hg, ← haccessors]
      exact constructor?_placeAccessors (Accessor.names_method i _) property
    have hsame : (if r.kind.isCollection then collectionEnsured property g
        else .ok (dropCollectionInit property g)) = .ok g := by
      split at hchanged
      · obtain ⟨m, names, hm, hnames, hmem⟩ :=
          assigned_of_collectionEnsured hindent hproperty hfree hchanged
        rw [if_pos ‹_›]
        exact collectionEnsured_self (hconstructor.trans hm) hnames hmem
      · cases hchanged
        rw [if_neg ‹_›, dropCollectionInit_self]
        rw [hconstructor]
        exact dropStatement?_of_dropped
    rw [hsame]
    refine congrArg Except.ok ?_
    rw [← haccessors] at hg ⊢
    exact placeAccessors_again hdeclared hg hfound

/-- **A call that has succeeded succeeds again and changes nothing**, whoever has written the class;
a class that has been read is indented by spaces and tabs. -/
theorem Call.again {call : Call} {d d' : Desk} (hi : IsIndent i) (hindent : IsIndent d.file.indent)
    (hplain : call.HasPlainNames) (harrows : ∀ m ∈ d.file.constructor?, m.ArrowFree)
    (hrun : (call.edit i).run d = (.ok (), d')) :
    ∃ log, (call.edit i).run d' = (.ok (), ⟨d'.file, log⟩) := by
  have hok : ((call.edit i).run d).1 = .ok () := by rw [hrun]
  have hfile : ((call.edit i).run d).2.file = d'.file := by rw [hrun]
  cases call with
  | addField name value phpType nullable =>
    obtain ⟨hname, hphp⟩ := hplain
    rw [Call.edit] at hok hfile ⊢
    obtain ⟨type, htype, haccepted, hadded⟩ := added_of_addFieldOf hi hname hphp hok
    have hnative := isFieldType_given hphp type
    obtain ⟨log, hagain⟩ : ∃ log, (Edit.addField i name type phpType nullable).run d' = (.ok (),
        ⟨fieldAdded i name type ((given? phpType).getD type.phpType) nullable d'.file, log⟩) :=
      run_addField hi haccepted hname hnative d'
    refine ⟨log, ?_⟩
    rw [addFieldOf_eq haccepted htype, hagain, ← hfile, hadded,
      fieldAdded_again (name_of_isIdentifier hname haccepted) hnative]
  | addRelation r targetName =>
    have hplain : r.IsPlain ((given? targetName).getD r.targetName) := hplain
    rw [Call.edit] at hok hfile ⊢
    obtain ⟨property, hproperty, hname, htarget, hadded⟩ := added_of_addRelation hi hplain hok
    rw [hfile] at hadded
    have hagain := relationAdded_again hindent
      (name_of_isIdentifier (hplain.property _ (eq_some_of_given? hproperty)) hname)
      (capital_of_isClassName hplain.target htarget) hplain.other hplain.joinTable harrows hadded
    obtain ⟨e, he, hresult⟩ := run_addRelation hi hproperty hname htarget hplain d'
    rw [hagain] at hresult
    obtain ⟨log, rfl⟩ := hresult
    exact ⟨log, he⟩

end

/-- Three arrows at the end of a constructor open a heredoc once a statement stands behind them. -/
example : (Method.assigned { emptyConstructor with body := some " $q = <<<SQL " }) = .ok [] ∧
    (Method.addStatement { emptyConstructor with body := some " $q = <<<SQL " }
      (Render.collectionInit "tags") "    ").bind Method.assigned =
        .error (Defect.unterminatedHeredoc.atLine 1) := by decide +kernel

end EntityScaffold
