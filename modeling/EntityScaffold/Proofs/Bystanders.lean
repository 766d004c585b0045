import EntityScaffold.Proofs.Placing

/-!
# Members that an edit does not name

An edit replaces, removes or adds members of certain names.  A predicate on members that rejects all
members of these names does not see the edit: the members that satisfy it are the same before and
after, in the same order.

* `filter_replaceFirst`, `filter_insertBefore`, `filter_insertBehind` — changes of a list of members.
* `filter_placeProperty`, `filter_placeMethods`, `filter_dropCollectionInit`,
  `filter_collectionEnsured` — edits of a class.
* `findMethod?_placeProperty`, `findMethod?_placeMethods` — a method of another name is still found.
* `of_dropStatement?`, `of_addStatement`, `of_statementEnsured` — what an edit of the constructor
  comes to.
-/

set_option autoImplicit false

namespace EntityScaffold

open Text Source Edit

/-! ## Changes of a list of members -/

section

variable {p q : Member → Bool} {new : Member} {ms : List Member}

theorem filter_replaceFirst (hnew : q new = false) (hp : ∀ m, p m = true → q m = false) :
    (replaceFirst p new ms).filter q = ms.filter q := by
  induction ms with
  | nil => rfl
  | cons m ms ih =>
    rw [replaceFirst]
    split
    · rename_i hm
      rw [List.filter_cons_of_neg (by simp [hnew]), List.filter_cons_of_neg (by simp [hp m hm])]
    · rw [List.filter_cons, List.filter_cons, ih]

theorem filter_of_split {s t ms' : List Member} (hnew : q new = false) (hms : ms = s ++ t)
    (hms' : ms' = s ++ new :: t) : ms'.filter q = ms.filter q := by
  rw [hms, hms', List.filter_append, List.filter_append, List.filter_cons_of_neg (by simp [hnew])]

theorem filter_insertBefore (hnew : q new = false) :
    (insertBefore new ms).filter q = ms.filter q := by
  obtain ⟨s, t, hms, hms'⟩ := insertBefore_split new ms
  exact filter_of_split hnew hms hms'

theorem filter_insertBehind (hnew : q new = false) :
    (insertBehind new ms).filter q = ms.filter q := by
  obtain ⟨s, t, hms, hms'⟩ := insertBehind_split new ms
  exact filter_of_split hnew hms hms'

end

/-! ## Edits of a class -/

section

variable {q : Member → Bool} {f g : ClassFile}

theorem filter_placeProperty {name : Text} {p : Property} (hname : p.name = name)
    (hq : ∀ r : Property, r.name = name → q (.property r) = false) :
    (placeProperty name p f).members.filter q = f.members.filter q := by
  rw [placeProperty]
  split
  · rw [f.members_replaceProperty]
    refine filter_replaceFirst (hq p hname) fun m hm => ?_
    cases m with
    | property r => exact hq r (beq_iff_eq.mp hm)
    | method k => cases hm
    | verbatim t => cases hm
  · rw [f.members_insertProperty]
    exact filter_insertBefore (hq p hname)

theorem filter_replaceMethod {name : Text} {m : Method} (hname : m.key = lower name)
    (hq : ∀ k : Method, k.key = lower name → q (.method k) = false) :
    (f.replaceMethod name (.method m)).members.filter q = f.members.filter q := by
  rw [f.members_replaceMethod]
  refine filter_replaceFirst (hq m hname) fun k hk => ?_
  cases k with
  | method k => exact hq k (ClassFile.isMethodNamed_iff.mp hk)
  | property r => cases hk
  | verbatim t => cases hk

theorem filter_placeMethod {m : Method} (hq : ∀ k : Method, k.key = m.key → q (.method k) = false) :
    (placeMethod f m).members.filter q = f.members.filter q := by
  rw [placeMethod]
  split
  · exact filter_replaceMethod rfl hq
  · rw [f.members_insertMethod]
    exact filter_insertBehind (hq m rfl)

theorem filter_removeMethod {name : Text}
    (hq : ∀ k : Method, k.key = lower name → q (.method k) = false) :
    (f.removeMethod name).members.filter q = f.members.filter q := by
  rw [f.members_removeMethod, List.filter_filter]
  refine List.filter_congr fun m _ => ?_
  cases hm : m.isMethodNamed name with
  | false => simp
  | true =>
    cases m with
    | method k => simp [hq k (ClassFile.isMethodNamed_iff.mp hm)]
    | property r => cases hm
    | verbatim t => cases hm

/-- Methods that are neither placed nor stale stay. -/
theorem filter_placeMethods {ms : List Method} {stale : List Text}
    (hms : ∀ m ∈ ms, ∀ k : Method, k.key = m.key → q (.method k) = false)
    (hstale : ∀ name ∈ stale, ∀ k : Method, k.key = lower name → q (.method k) = false) :
    (placeMethods ms stale f).members.filter q = f.members.filter q :=
  placeMethods_induction (P := fun g => g.members.filter q = f.members.filter q) rfl
    (fun name hname _ hg => (filter_removeMethod (hstale name hname)).trans hg)
    fun m hm _ hg => (filter_placeMethod (hms m hm)).trans hg

theorem of_dropStatement? {m k : Method} {statement : Text}
    (h : m.dropStatement? statement = some k) : ∃ body, m.body = some body ∧
      k = { m with body := some (ofLines ((lines body).filter (strip · != statement))) } := by
  rw [Method.dropStatement?] at h
  split at h
  · cases h
  · cases h
  · rename_i body _ hbody
    dsimp only at h
    split at h
    · cases h
    · cases h
      exact ⟨body, hbody, rfl⟩

theorem of_addStatement {m k : Method} {statement i : Text}
    (h : m.addStatement statement i = .ok k) : ∃ body, m.body = some body ∧
      k = { m with body := some (stripEnd body ++ "\n" ++ i ++ statement ++ "\n") } := by
  rw [Method.addStatement] at h
  split at h
  · cases h
  · rename_i body hbody
    cases h
    exact ⟨body, hbody, rfl⟩

theorem key_constructor? {m : Method} (h : f.constructor? = some m) : m.key = constructorName :=
  lower_constructorName ▸ ClassFile.isMethodNamed_iff.mp (List.find?_some h)

/-- What becomes of a class that is to have a constructor in which a collection is made empty: it
is that class, or another constructor is in the place of its own. -/
theorem of_statementEnsured {property : Text} (h : statementEnsured property f = .ok g) :
    g = f ∨ ∃ m k, f.constructor? = some m ∧
      m.addStatement (Render.collectionInit property) f.indent = .ok k ∧
      g = f.replaceMethod constructorName (.method k) := by
  rw [statementEnsured] at h
  split at h
  · cases h
    exact .inl rfl
  · rename_i m hm
    split at h
    · cases h
    · split at h
      · cases h
        exact .inl rfl
      · cases hk : m.addStatement (Render.collectionInit property) f.indent with
        | error e =>
          rw [hk] at h
          cases h
        | ok k =>
          rw [hk] at h
          cases h
          exact .inr ⟨m, k, hm, hk, rfl⟩

/-- The members beside the constructor stay. -/
theorem filter_dropCollectionInit (property : Text)
    (hq : ∀ k : Method, k.key = constructorName → q (.method k) = false) :
    (dropCollectionInit property f).members.filter q = f.members.filter q := by
  rw [dropCollectionInit]
  split
  · rename_i k hk
    obtain ⟨m, hm, hk⟩ := Option.bind_eq_some_iff.mp hk
    obtain ⟨body, -, rfl⟩ := of_dropStatement? hk
    refine filter_replaceMethod ?_ fun k hk => hq k (hk.trans lower_constructorName)
    exact (key_constructor? hm).trans lower_constructorName.symm
  · rfl

theorem filter_collectionEnsured {property : Text} (h : collectionEnsured property f = .ok g)
    (hq : ∀ k : Method, k.key = constructorName → q (.method k) = false) :
    g.members.filter q = f.members.filter q := by
  have hwith : f.withConstructor.members.filter q = f.members.filter q := by
    cases hc : f.constructor? with
    | some m =>
      rw [ClassFile.withConstructor, hc]
      rfl
    | none =>
      rw [f.members_withConstructor hc]
      exact filter_insertBefore (hq _ lower_constructorName)
  rw [← hwith]
  rcases of_statementEnsured h with rfl | ⟨m, k, hm, hk, rfl⟩
  · rfl
  · obtain ⟨body, -, rfl⟩ := of_addStatement hk
    refine filter_replaceMethod ?_ fun k hk => hq k (hk.trans lower_constructorName)
    exact (key_constructor? hm).trans lower_constructorName.symm

end

/-! ## Methods that are found -/

section

variable {f : ClassFile} {name : Text}

theorem findMethod?_placeMethod {m : Method} (hne : lower name ≠ m.key) :
    (placeMethod f m).findMethod? name = f.findMethod? name :=
  (put_placeMethod m).find?_of_ne hne

theorem findMethod?_removeMethod {other : Text} (hne : lower name ≠ lower other) :
    (f.removeMethod other).findMethod? name = f.findMethod? name := by
  rw [ClassFile.findMethod?, f.methods_removeMethod, List.find?_filter, ClassFile.findMethod?]
  congr 1
  funext m
  cases hm : ClassFile.isMethodNamed name m with
  | false => simp
  | true => simp [ClassFile.isMethodNamed_iff.mp hm, hne]

theorem findMethod?_placeMethods {ms : List Method} {stale : List Text}
    (hms : ∀ m ∈ ms, lower name ≠ m.key) (hstale : ∀ other ∈ stale, lower name ≠ lower other) :
    (placeMethods ms stale f).findMethod? name = f.findMethod? name :=
  placeMethods_induction (P := fun g => g.findMethod? name = f.findMethod? name) rfl
    (fun other hother _ hg => (findMethod?_removeMethod (hstale other hother)).trans hg)
    fun m hm _ hg => (findMethod?_placeMethod (hms m hm)).trans hg

theorem findMethod?_placeProperty (property : Text) (p : Property) :
    (placeProperty property p f).findMethod? name = f.findMethod? name := by
  rw [ClassFile.findMethod?, methods_placeProperty, ClassFile.findMethod?]

theorem constructor?_replaceMethod {m k : Method} (hm : f.constructor? = some m)
    (hk : k.key = constructorName) :
    (f.replaceMethod constructorName (.method k)).constructor? = some k := by
  have hput : Put Method.key k f.methods (f.replaceMethod constructorName (.method k)).methods :=
    f.put_replaceMethod (hk.trans lower_constructorName.symm)
      ⟨m, List.mem_of_find?_eq_some hm, (key_constructor? hm).trans lower_constructorName.symm⟩
  have hfound := hput.find?_self
  rwa [hk, ← lower_constructorName] at hfound

end

end EntityScaffold
