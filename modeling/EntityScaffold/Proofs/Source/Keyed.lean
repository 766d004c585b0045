import EntityScaffold.Proofs.Source.Members
import Mathlib.Data.List.Nodup

/-!
# Members by their names

Properties go by their names and methods by their names in lower case.  An edit that puts a member
into a class takes the place of the one with its name, or makes a place for it.

* `Put` — one element of a list put in the place of the one with its key; `Put.nodup`,
  `Put.mem_iff` and `Put.find?_self` say what the list holds then.
* `put_replaceFirst`, `put_of_split` — the changes of members do that.
* `ClassFile.put_replaceMethod` and so on — so do the edits of a class, and those of methods leave the
  properties as they are.
-/

set_option autoImplicit false

namespace EntityScaffold.Source

open Text

/-! ## Lists with keys -/

section

variable {α κ : Type} {key : α → κ}

/-- A list, and the list with `y` in place of the first element with its key; if no element has this
key, `y` stands between the others. -/
inductive Put (key : α → κ) (y : α) : List α → List α → Prop where
  | swap {x : α} {s t : List α} (first : ∀ z ∈ s, key z ≠ key y) (same : key x = key y) :
    Put key y (s ++ x :: t) (s ++ y :: t)
  | add {s t : List α} (fresh : ∀ x ∈ s ++ t, key x ≠ key y) : Put key y (s ++ t) (s ++ y :: t)

variable {x y : α} {xs ys : List α}

/-- Keys are distinct if those around an element are, and none of them is its own. -/
theorem nodup_keys_middle {s t : List α} : ((s ++ y :: t).map key).Nodup ↔
    (∀ x ∈ s ++ t, key x ≠ key y) ∧ ((s ++ t).map key).Nodup := by
  have hperm : ((s ++ y :: t).map key).Perm (key y :: (s ++ t).map key) :=
    List.perm_middle.map key
  rw [hperm.nodup_iff, List.nodup_cons, List.mem_map, not_exists]
  simp only [not_and]

/-- An element is in its own place. -/
theorem Put.self (h : y ∈ xs) (hn : (xs.map key).Nodup) : Put key y xs xs := by
  obtain ⟨s, t, rfl⟩ := List.append_of_mem h
  exact .swap (fun z hz => (nodup_keys_middle.mp hn).1 z (List.mem_append_left t hz)) rfl

theorem Put.cons (h : Put key y xs ys) (hx : key x ≠ key y) : Put key y (x :: xs) (x :: ys) := by
  cases h with
  | @swap _ s _ first same =>
    refine .swap (s := x :: s) (fun z hz => ?_) same
    rcases List.mem_cons.mp hz with rfl | hz
    · exact hx
    · exact first z hz
  | @add s _ fresh =>
    refine .add (s := x :: s) fun z hz => ?_
    rcases List.mem_cons.mp hz with rfl | hz
    · exact hx
    · exact fresh z hz

/-- **Keys stay distinct.** -/
theorem Put.nodup (h : Put key y xs ys) (hn : (xs.map key).Nodup) : (ys.map key).Nodup := by
  cases h with
  | swap first same => simpa only [List.map_append, List.map_cons, same] using hn
  | add fresh => exact nodup_keys_middle.mpr ⟨fresh, hn⟩

/-- **Nothing else but the element with this key has gone.** -/
theorem Put.mem_iff (h : Put key y xs ys) (hn : (xs.map key).Nodup) :
    x ∈ ys ↔ x = y ∨ x ∈ xs ∧ key x ≠ key y := by
  have hmiddle : ∀ (z : α) (s t : List α), x ∈ s ++ z :: t ↔ x = z ∨ x ∈ s ++ t := by
    intro z s t
    simp only [List.mem_append, List.mem_cons, or_left_comm]
  cases h with
  | @swap z s t first same =>
    obtain ⟨hother, -⟩ := nodup_keys_middle.mp hn
    rw [same] at hother
    rw [hmiddle, hmiddle]
    refine or_congr_right ⟨fun hx => ⟨.inr hx, hother x hx⟩, ?_⟩
    rintro ⟨hx, hne⟩
    exact hx.resolve_left fun heq => hne (heq ▸ same)
  | @add s t fresh =>
    rw [hmiddle]
    exact or_congr_right ⟨fun hx => ⟨hx, fresh x hx⟩, And.left⟩

variable [BEq κ] [LawfulBEq κ]

/-- **The element is found under its key.** -/
theorem Put.find?_self (h : Put key y xs ys) : ys.find? (key · == key y) = some y := by
  have hnone : ∀ s : List α, (∀ z ∈ s, key z ≠ key y) → s.find? (key · == key y) = none :=
    fun s hs => List.find?_eq_none.mpr fun z hz => by simpa using hs z hz
  cases h with
  | @swap _ s _ first same =>
    rw [List.find?_append, hnone s first, Option.none_or, List.find?_cons, BEq.rfl]
  | @add s _ fresh =>
    rw [List.find?_append, hnone s fun z hz => fresh z (List.mem_append_left _ hz), Option.none_or,
      List.find?_cons, BEq.rfl]

/-- **Under another key there is what has been there.** -/
theorem Put.find?_of_ne (h : Put key y xs ys) {k : κ} (hk : k ≠ key y) :
    ys.find? (key · == k) = xs.find? (key · == k) := by
  have hy : (key y == k) = false := beq_eq_false_iff_ne.mpr (Ne.symm hk)
  cases h with
  | swap first same =>
    rw [List.find?_append, List.find?_append, List.find?_cons, List.find?_cons, same, hy]
  | add fresh => rw [List.find?_append, List.find?_append, List.find?_cons, hy]

end

/-! ## Members put among others -/

section

variable {α κ : Type} {key : α → κ} {select : Member → Option α} {new : Member} {y : α}
  {ms : List Member}

/-- A member in place of the first one with its key. -/
theorem put_replaceFirst {p : Member → Bool} (hnew : select new = some y)
    (hp : ∀ m, p m = true ↔ ∃ x, select m = some x ∧ key x = key y)
    (h : ∃ x ∈ ms.filterMap select, key x = key y) :
    Put key y (ms.filterMap select) ((replaceFirst p new ms).filterMap select) := by
  induction ms with
  | nil => simp at h
  | cons m ms ih =>
    rw [replaceFirst]
    by_cases hm : p m = true
    · obtain ⟨x, hx, hkey⟩ := (hp m).mp hm
      rw [if_pos hm, List.filterMap_cons_some hx, List.filterMap_cons_some hnew]
      exact .swap (s := []) (by simp) hkey
    · rw [if_neg hm]
      cases hx : select m with
      | none =>
        rw [List.filterMap_cons_none hx] at h
        rw [List.filterMap_cons_none hx, List.filterMap_cons_none hx]
        exact ih h
      | some x =>
        have hkey : key x ≠ key y := fun hkey => hm ((hp m).mpr ⟨x, hx, hkey⟩)
        rw [List.filterMap_cons_some hx] at h
        rw [List.filterMap_cons_some hx, List.filterMap_cons_some hx]
        refine (ih ?_).cons hkey
        obtain ⟨z, hz, hzkey⟩ := h
        rcases List.mem_cons.mp hz with rfl | hz
        · exact absurd hzkey hkey
        · exact ⟨z, hz, hzkey⟩

/-- Replacing members of another sort changes nothing. -/
theorem filterMap_replaceFirst {p : Member → Bool} (hnew : select new = none)
    (hp : ∀ m, p m = true → select m = none) :
    (replaceFirst p new ms).filterMap select = ms.filterMap select := by
  induction ms with
  | nil => rfl
  | cons m ms ih =>
    rw [replaceFirst]
    split
    · rename_i hm
      rw [List.filterMap_cons_none hnew, List.filterMap_cons_none (hp m hm)]
    · rw [List.filterMap_cons, List.filterMap_cons, ih]

theorem put_of_split {s t ms' : List Member} (hnew : select new = some y) (hms : ms = s ++ t)
    (hms' : ms' = s ++ new :: t) (fresh : ∀ x ∈ ms.filterMap select, key x ≠ key y) :
    Put key y (ms.filterMap select) (ms'.filterMap select) := by
  rw [hms, List.filterMap_append] at fresh ⊢
  rw [hms', List.filterMap_append, List.filterMap_cons_some hnew]
  exact .add fresh

theorem filterMap_of_split {s t ms' : List Member} (hnew : select new = none)
    (hms : ms = s ++ t) (hms' : ms' = s ++ new :: t) :
    ms'.filterMap select = ms.filterMap select := by
  rw [hms, hms', List.filterMap_append, List.filterMap_append, List.filterMap_cons_none hnew]

end

/-! ## Properties and methods of a class -/

def Member.property? : Member → Option Property
  | .property p => some p
  | _ => none

def Member.method? : Member → Option Method
  | .method m => some m
  | _ => none

/-- The name of a method, as names of methods are compared. -/
def Method.key (m : Method) : Text := lower m.name

namespace ClassFile

variable (f : ClassFile)

theorem methods_eq : f.methods = f.members.filterMap Member.method? := rfl

theorem properties_eq : f.properties = f.members.filterMap Member.property? := rfl

theorem isMethodNamed_iff {name : Text} {m : Method} :
    isMethodNamed name m = true ↔ m.key = lower name := beq_iff_eq

theorem findMethod?_isSome_iff {name : Text} :
    (f.findMethod? name).isSome = true ↔ ∃ m ∈ f.methods, m.key = lower name := by
  rw [findMethod?, List.find?_isSome]
  simp only [isMethodNamed_iff]

theorem findProperty?_isSome_iff {name : Text} :
    (f.findProperty? name).isSome = true ↔ ∃ p ∈ f.properties, p.name = name := by
  rw [findProperty?, List.find?_isSome]
  simp only [beq_iff_eq]

theorem put_insertProperty {p : Property} (h : ∀ q ∈ f.properties, q.name ≠ p.name) :
    Put Property.name p f.properties (f.insertProperty p).properties := by
  obtain ⟨s, t, hms, hnew⟩ := insertBefore_split (.property p) f.members
  rw [properties_eq] at h ⊢
  rw [properties_eq, members_insertProperty]
  exact put_of_split rfl hms hnew h

theorem put_replaceProperty {p : Property} (h : ∃ q ∈ f.properties, q.name = p.name) :
    Put Property.name p f.properties (f.replaceProperty p.name (.property p)).properties := by
  rw [properties_eq, properties_eq, members_replaceProperty]
  refine put_replaceFirst rfl (fun m => ?_) h
  cases m with
  | property q => simp [Member.isPropertyNamed, Member.property?]
  | method k => simp [Member.isPropertyNamed, Member.property?]
  | verbatim t => simp [Member.isPropertyNamed, Member.property?]

theorem methods_insertProperty (p : Property) : (f.insertProperty p).methods = f.methods := by
  obtain ⟨s, t, hms, hnew⟩ := insertBefore_split (.property p) f.members
  rw [methods_eq, members_insertProperty]
  exact filterMap_of_split rfl hms hnew

theorem methods_replaceProperty (name : Text) (p : Property) :
    (f.replaceProperty name (.property p)).methods = f.methods := by
  rw [methods_eq, members_replaceProperty]
  refine filterMap_replaceFirst rfl fun m hm => ?_
  cases m with
  | method k => cases hm
  | property q => rfl
  | verbatim t => rfl

theorem put_insertMethod {m : Method} (h : ∀ k ∈ f.methods, k.key ≠ m.key) :
    Put Method.key m f.methods (f.insertMethod m).methods := by
  obtain ⟨s, t, hms, hnew⟩ := insertBehind_split (.method m) f.members
  rw [methods_eq] at h ⊢
  rw [methods_eq, members_insertMethod]
  exact put_of_split rfl hms hnew h

theorem put_replaceMethod {name : Text} {m : Method} (hname : m.key = lower name)
    (h : ∃ k ∈ f.methods, k.key = lower name) :
    Put Method.key m f.methods (f.replaceMethod name (.method m)).methods := by
  rw [← hname] at h
  rw [methods_eq, methods_eq, members_replaceMethod]
  refine put_replaceFirst rfl (fun k => ?_) h
  cases k with
  | method k => simp [Member.isMethodNamed, Member.method?, isMethodNamed_iff, hname]
  | property q => simp [Member.isMethodNamed, Member.method?]
  | verbatim t => simp [Member.isMethodNamed, Member.method?]

theorem properties_insertMethod (m : Method) : (f.insertMethod m).properties = f.properties := by
  obtain ⟨s, t, hms, hnew⟩ := insertBehind_split (.method m) f.members
  rw [properties_eq, members_insertMethod]
  exact filterMap_of_split rfl hms hnew

theorem properties_replaceMethod (name : Text) (m : Method) :
    (f.replaceMethod name (.method m)).properties = f.properties := by
  rw [properties_eq, members_replaceMethod]
  refine filterMap_replaceFirst rfl fun k hk => ?_
  cases k with
  | property q => cases hk
  | method k => rfl
  | verbatim t => rfl

theorem properties_withConstructor : f.withConstructor.properties = f.properties := by
  cases hc : f.constructor? with
  | some m =>
    rw [withConstructor, hc]
    rfl
  | none =>
    obtain ⟨s, t, hms, hnew⟩ := insertBefore_split (.method emptyConstructor) f.members
    rw [properties_eq, f.members_withConstructor hc]
    exact filterMap_of_split rfl hms hnew

theorem properties_removeMethod (name : Text) : (f.removeMethod name).properties = f.properties := by
  rw [properties_eq, members_removeMethod, List.filterMap_filter, properties_eq]
  refine List.filterMap_congr fun m _ => ?_
  cases m with
  | property p => rfl
  | method m => exact ite_self none
  | verbatim t => rfl

theorem methods_removeMethod (name : Text) :
    (f.removeMethod name).methods = f.methods.filter fun m => m.key != lower name := by
  rw [methods_eq, members_removeMethod, methods_eq]
  induction f.members with
  | nil => rfl
  | cons m ms ih =>
    cases m with
    | property p => exact ih
    | verbatim t => exact ih
    | method m =>
      have hnamed : (!Member.isMethodNamed name (.method m)) = (m.key != lower name) := rfl
      have hcons : ∀ l, (Member.method m :: l).filterMap Member.method? =
          m :: l.filterMap Member.method? := fun _ => rfl
      rw [List.filter_cons, hnamed, hcons, List.filter_cons, ← ih]
      split
      · exact hcons _
      · rfl

end ClassFile

end EntityScaffold.Source
