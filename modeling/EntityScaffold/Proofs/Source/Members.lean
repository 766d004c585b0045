import EntityScaffold.Source.ClassFile

/-!
# What edits do to the members of a class

Every edit of the items of a class changes its members in a way that does not depend on the gaps
between them.

* `insertBefore`, `insertBehind`, `replaceFirst` — the changes; `members_insertProperty` and so on
  say which edit makes which.
* `Alike` — classes that differ in their gaps only; edits of such classes give such classes, and
  they have one text.
-/

set_option autoImplicit false

namespace EntityScaffold.Source

open Text

/-! ## Members of items -/

def Member.isMethod : Member → Bool
  | .method _ => true
  | _ => false

def Member.isPropertyNamed (name : Text) : Member → Bool
  | .property p => p.name == name
  | _ => false

def Member.isMethodNamed (name : Text) : Member → Bool
  | .method m => ClassFile.isMethodNamed name m
  | _ => false

theorem membersOf_gap (items : List Item) : membersOf (.gap :: items) = membersOf items := rfl

theorem membersOf_member (m : Member) (items : List Item) :
    membersOf (.member m :: items) = m :: membersOf items := rfl

theorem membersOf_append (items more : List Item) :
    membersOf (items ++ more) = membersOf items ++ membersOf more :=
  List.filterMap_append

theorem membersOf_reverse (items : List Item) :
    membersOf items.reverse = (membersOf items).reverse :=
  List.filterMap_reverse

section

variable {p : Item → Bool} {q : Member → Bool}

theorem membersOf_takeWhile (hgap : p .gap = true) (hmember : ∀ m, p (.member m) = q m)
    (items : List Item) : membersOf (items.takeWhile p) = (membersOf items).takeWhile q := by
  induction items with
  | nil => rfl
  | cons item items ih =>
    cases item with
    | gap => rw [List.takeWhile_cons, if_pos hgap, membersOf_gap, membersOf_gap, ih]
    | member m =>
      rw [List.takeWhile_cons, membersOf_member, List.takeWhile_cons, hmember]
      cases q m with
      | false => rfl
      | true => simp only [if_true, membersOf_member, ih]

theorem membersOf_dropWhile (hgap : p .gap = true) (hmember : ∀ m, p (.member m) = q m)
    (items : List Item) : membersOf (items.dropWhile p) = (membersOf items).dropWhile q := by
  induction items with
  | nil => rfl
  | cons item items ih =>
    cases item with
    | gap => rw [List.dropWhile_cons, if_pos hgap, membersOf_gap, ih]
    | member m =>
      rw [List.dropWhile_cons, membersOf_member, List.dropWhile_cons, hmember]
      cases q m with
      | false => rfl
      | true => simp only [if_true, ih]

theorem membersOf_filter (hgap : p .gap = true) (hmember : ∀ m, p (.member m) = q m)
    (items : List Item) : membersOf (items.filter p) = (membersOf items).filter q := by
  induction items with
  | nil => rfl
  | cons item items ih =>
    cases item with
    | gap => rw [List.filter_cons, if_pos hgap, membersOf_gap, membersOf_gap, ih]
    | member m =>
      rw [List.filter_cons, membersOf_member, List.filter_cons, hmember]
      cases q m with
      | false => simpa using ih
      | true => simp only [if_true, membersOf_member, ih]

theorem any_membersOf (hgap : p .gap = false) (hmember : ∀ m, p (.member m) = q m)
    (items : List Item) : items.any p = (membersOf items).any q := by
  induction items with
  | nil => rfl
  | cons item items ih =>
    cases item with
    | gap => rw [List.any_cons, hgap, Bool.false_or, membersOf_gap, ih]
    | member m => rw [List.any_cons, hmember, membersOf_member, List.any_cons, ih]

end

theorem membersOf_eq_nil {items : List Item} (h : ∀ item ∈ items, item = .gap) :
    membersOf items = [] := by
  induction items with
  | nil => rfl
  | cons item items ih =>
    rw [h item (by simp), membersOf_gap]
    exact ih fun i hi => h i (List.mem_cons_of_mem item hi)

/-- Both parts, read from the end. -/
theorem splitAfterLast_eq (p : Item → Bool) (items : List Item) :
    splitAfterLast p items = ((items.reverse.dropWhile (!p ·)).reverse,
      (items.reverse.takeWhile (!p ·)).reverse) := by
  have hsplit : items = (items.reverse.dropWhile (!p ·)).reverse ++
      (items.reverse.takeWhile (!p ·)).reverse := by
    rw [← List.reverse_append, List.takeWhile_append_dropWhile, List.reverse_reverse]
  have hlen := congrArg List.length hsplit
  rw [List.length_append] at hlen
  rw [splitAfterLast]
  congr 1
  conv => lhs; arg 2; rw [hsplit]
  exact List.take_left' (by omega)

/-! ## The changes -/

/-- The members with one more in front of the first method. -/
def insertBefore (new : Member) (ms : List Member) : List Member :=
  ms.takeWhile (!·.isMethod) ++ new :: ms.dropWhile (!·.isMethod)

/-- The members with one more behind the last method, or at the end if there is none. -/
def insertBehind (new : Member) (ms : List Member) : List Member :=
  if ms.any (·.isMethod) then
    (ms.reverse.dropWhile (!·.isMethod)).reverse ++
      new :: (ms.reverse.takeWhile (!·.isMethod)).reverse
  else ms ++ [new]

/-- The members with another one in place of the first that satisfies `p`. -/
def replaceFirst (p : Member → Bool) (new : Member) : List Member → List Member
  | [] => []
  | m :: ms => if p m then new :: ms else m :: replaceFirst p new ms

theorem membersOf_modifyFirst {p : Item → Bool} {q : Member → Bool} (hgap : p .gap = false)
    (hmember : ∀ m, p (.member m) = q m) (new : Member) (items : List Item) :
    membersOf (modifyFirst p (fun _ => .member new) items) =
      replaceFirst q new (membersOf items) := by
  induction items with
  | nil => rfl
  | cons item items ih =>
    cases item with
    | gap => rw [modifyFirst, hgap, if_neg Bool.false_ne_true, membersOf_gap, membersOf_gap, ih]
    | member m =>
      rw [modifyFirst, hmember, membersOf_member, replaceFirst]
      cases q m with
      | false => simp only [Bool.false_eq_true, if_false, membersOf_member, ih]
      | true => rfl

theorem membersOf_insertPropertyItem (new : Member) (items : List Item) :
    membersOf (insertPropertyItem (.member new) items) = insertBefore new (membersOf items) := by
  have hrest : ∀ rest : List Item,
      membersOf (if rest.head?.any (·.isGap) then rest.drop 1 else rest) = membersOf rest := by
    intro rest
    cases rest with
    | nil => rfl
    | cons item rest => cases item <;> rfl
  have hgaps : ∀ b : Bool, membersOf (if b then [Item.gap] else []) = [] ∧
      membersOf (if b then [] else [Item.gap]) = [] := by decide
  have hbehind : membersOf ((items.takeWhile (!·.isMethod)).reverse.takeWhile
      (!(fun i : Item => !i.isGap) ·)).reverse = [] := by
    refine membersOf_eq_nil fun item hitem => ?_
    have := List.all_eq_true.mp List.all_takeWhile item (List.mem_reverse.mp hitem)
    cases item with
    | gap => rfl
    | member m => cases this
  have hfront : membersOf ((items.takeWhile (!·.isMethod)).reverse.dropWhile
      (!(fun i : Item => !i.isGap) ·)).reverse = membersOf (items.takeWhile (!·.isMethod)) := by
    conv => rhs; rw [← List.reverse_reverse (items.takeWhile (!·.isMethod)),
      ← List.takeWhile_append_dropWhile (p := (!(fun i : Item => !i.isGap) ·))
        (l := (items.takeWhile (!·.isMethod)).reverse), List.reverse_append, membersOf_append,
        hbehind, List.append_nil]
  have hnot : ∀ m : Member, (!(Item.member m).isMethod) = !m.isMethod := fun m => by
    cases m <;> rfl
  have htake := membersOf_takeWhile (p := (!·.isMethod)) rfl hnot items
  have hdrop := membersOf_dropWhile (p := (!·.isMethod)) rfl hnot items
  simp only [insertPropertyItem, splitAfterLast_eq, membersOf_append, hfront, (hgaps _).1,
    (hgaps _).2, hrest, hbehind, insertBefore, htake, hdrop]
  simp [membersOf]

theorem membersOf_insertMethodItem (new : Member) (items : List Item) :
    membersOf (insertMethodItem (.member new) items) = insertBehind new (membersOf items) := by
  have hmethod : ∀ m : Member, (Item.member m).isMethod = m.isMethod := fun m => by
    cases m <;> rfl
  have hnot : ∀ m : Member, (!(Item.member m).isMethod) = !m.isMethod := fun m => by
    rw [hmethod]
  rw [insertMethodItem, any_membersOf rfl hmethod, insertBehind, splitAfterLast_eq]
  cases (membersOf items).any (·.isMethod) with
  | false =>
    simp only [Bool.false_eq_true, if_false, membersOf_append]
    rfl
  | true =>
    simp only [if_true, membersOf_append, membersOf_reverse, membersOf_member,
      membersOf_takeWhile (p := (!·.isMethod)) rfl hnot,
      membersOf_dropWhile (p := (!·.isMethod)) rfl hnot, List.append_assoc]
    rfl

theorem membersOf_insertBeforeMethods (new : Member) (items : List Item) :
    membersOf (insertBeforeMethods (.member new) items) = insertBefore new (membersOf items) := by
  have hnot : ∀ m : Member, (!(Item.member m).isMethod) = !m.isMethod := fun m => by
    cases m <;> rfl
  simp only [insertBeforeMethods, membersOf_append, membersOf_takeWhile (p := (!·.isMethod)) rfl hnot,
    membersOf_dropWhile (p := (!·.isMethod)) rfl hnot, insertBefore, List.append_assoc]
  rfl

/-- A new member comes between others. -/
theorem insertBefore_split (new : Member) (ms : List Member) :
    ∃ s t, ms = s ++ t ∧ insertBefore new ms = s ++ new :: t :=
  ⟨_, _, List.takeWhile_append_dropWhile.symm, rfl⟩

theorem insertBehind_split (new : Member) (ms : List Member) :
    ∃ s t, ms = s ++ t ∧ insertBehind new ms = s ++ new :: t := by
  rw [insertBehind]
  split
  · refine ⟨_, _, ?_, rfl⟩
    rw [← List.reverse_append, List.takeWhile_append_dropWhile, List.reverse_reverse]
  · exact ⟨ms, [], (List.append_nil ms).symm, rfl⟩

theorem mem_insertBefore {new m : Member} {ms : List Member} :
    m ∈ insertBefore new ms ↔ m = new ∨ m ∈ ms := by
  obtain ⟨s, t, hms, hnew⟩ := insertBefore_split new ms
  rw [hnew, hms]
  simp only [List.mem_append, List.mem_cons, or_left_comm]

theorem mem_insertBehind {new m : Member} {ms : List Member} :
    m ∈ insertBehind new ms ↔ m = new ∨ m ∈ ms := by
  obtain ⟨s, t, hms, hnew⟩ := insertBehind_split new ms
  rw [hnew, hms]
  simp only [List.mem_append, List.mem_cons, or_left_comm]

theorem mem_of_mem_replaceFirst {p : Member → Bool} {new m : Member} {ms : List Member}
    (h : m ∈ replaceFirst p new ms) : m = new ∨ m ∈ ms := by
  induction ms with
  | nil => cases h
  | cons k ms ih =>
    rw [replaceFirst] at h
    split at h
    · rcases List.mem_cons.mp h with rfl | h
      · exact .inl rfl
      · exact .inr (List.mem_cons_of_mem k h)
    · rcases List.mem_cons.mp h with rfl | h
      · exact .inr List.mem_cons_self
      · exact (ih h).imp_right (List.mem_cons_of_mem k)

/-! ## Gaps between all members -/

theorem spaced_cons (m : Member) (ms : List Member) :
    spaced (m :: ms) = .member m :: ms.flatMap fun m => [.gap, .member m] := by
  induction ms generalizing m with
  | nil => rfl
  | cons k ks ih =>
    have hstep : spaced (m :: k :: ks) = .member m :: .gap :: spaced (k :: ks) := rfl
    rw [hstep, ih]
    rfl

theorem membersOf_spaced (ms : List Member) : membersOf (spaced ms) = ms := by
  cases ms with
  | nil => rfl
  | cons m ms =>
    rw [spaced_cons]
    have hmore : membersOf (ms.flatMap fun m => [Item.gap, .member m]) = ms := by
      induction ms with
      | nil => rfl
      | cons k ks ih => exact congrArg (k :: ·) ih
    exact congrArg (m :: ·) hmore

/-! ## Edits of classes -/

theorem lower_constructorName : lower constructorName = constructorName := by decide

namespace ClassFile

variable (f : ClassFile)

theorem members_insertProperty (p : Property) :
    (f.insertProperty p).members = insertBefore (.property p) f.members :=
  membersOf_insertPropertyItem _ _

theorem members_insertMethod (m : Method) :
    (f.insertMethod m).members = insertBehind (.method m) f.members :=
  membersOf_insertMethodItem _ _

theorem members_removeMethod (name : Text) :
    (f.removeMethod name).members = f.members.filter (!·.isMethodNamed name) :=
  membersOf_filter (p := (!·.isMethodNamed name)) rfl (fun m => by cases m <;> rfl) _

theorem members_replaceProperty (name : Text) (new : Member) :
    (f.replaceProperty name new).members =
      replaceFirst (·.isPropertyNamed name) new f.members :=
  membersOf_modifyFirst rfl (fun m => by cases m <;> rfl) _ _

theorem members_replaceMethod (name : Text) (new : Member) :
    (f.replaceMethod name new).members = replaceFirst (·.isMethodNamed name) new f.members :=
  membersOf_modifyFirst rfl (fun m => by cases m <;> rfl) _ _

theorem members_withConstructor (h : f.constructor? = none) :
    f.withConstructor.members = insertBefore (.method emptyConstructor) f.members := by
  rw [withConstructor, h]
  exact membersOf_insertBeforeMethods _ _

theorem members_normalized : f.normalized.members = f.members := membersOf_spaced f.members

end ClassFile

/-! ## Classes that differ in their gaps only -/

/-- Classes of one name in files that agree outside of the class body. -/
structure Frame (f g : ClassFile) : Prop where
  className : f.className = g.className
  opening : f.opening = g.opening
  closing : f.closing = g.closing
  indent : f.indent = g.indent

theorem Frame.refl (f : ClassFile) : Frame f f := ⟨rfl, rfl, rfl, rfl⟩

theorem Frame.symm {f g : ClassFile} (h : Frame f g) : Frame g f :=
  ⟨h.className.symm, h.opening.symm, h.closing.symm, h.indent.symm⟩

theorem Frame.trans {f g h : ClassFile} (hfg : Frame f g) (hgh : Frame g h) : Frame f h :=
  ⟨hfg.className.trans hgh.className, hfg.opening.trans hgh.opening,
    hfg.closing.trans hgh.closing, hfg.indent.trans hgh.indent⟩

/-- Classes that differ in the gaps between their members at most, and in their paths. -/
structure Alike (f g : ClassFile) : Prop extends Frame f g where
  members : f.members = g.members

theorem Alike.refl (f : ClassFile) : Alike f f := ⟨.refl f, rfl⟩

theorem Alike.trans {f g h : ClassFile} (hfg : Alike f g) (hgh : Alike g h) : Alike f h :=
  ⟨hfg.toFrame.trans hgh.toFrame, hfg.members.trans hgh.members⟩

theorem alike_normalized (f : ClassFile) (path : Option Text) :
    Alike { f.normalized with path := path } f :=
  ⟨⟨rfl, rfl, rfl, rfl⟩, f.members_normalized⟩

section

variable {f g : ClassFile}

/-- **Classes that differ in their gaps have one text.** -/
theorem Alike.serialize_eq (h : Alike f g) : f.serialize = g.serialize := by
  have hsame : f.normalized = { g.normalized with path := f.path } := by
    simp only [ClassFile.normalized, h.className, h.opening, h.members, h.closing, h.indent]
  rw [ClassFile.serialize, hsame]
  rfl

theorem Alike.findProperty?_eq (h : Alike f g) (name : Text) :
    f.findProperty? name = g.findProperty? name := by
  simp only [ClassFile.findProperty?, ClassFile.properties, h.members]

theorem Alike.findMethod?_eq (h : Alike f g) (name : Text) :
    f.findMethod? name = g.findMethod? name := by
  simp only [ClassFile.findMethod?, ClassFile.methods, h.members]

theorem Alike.insertProperty (h : Alike f g) (p : Property) :
    Alike (f.insertProperty p) (g.insertProperty p) where
  toFrame := ⟨h.className, h.opening, h.closing, h.indent⟩
  members := by rw [f.members_insertProperty, g.members_insertProperty, h.members]

theorem Alike.insertMethod (h : Alike f g) (m : Method) :
    Alike (f.insertMethod m) (g.insertMethod m) where
  toFrame := ⟨h.className, h.opening, h.closing, h.indent⟩
  members := by rw [f.members_insertMethod, g.members_insertMethod, h.members]

theorem Alike.removeMethod (h : Alike f g) (name : Text) :
    Alike (f.removeMethod name) (g.removeMethod name) where
  toFrame := ⟨h.className, h.opening, h.closing, h.indent⟩
  members := by rw [f.members_removeMethod, g.members_removeMethod, h.members]

theorem Alike.replaceProperty (h : Alike f g) (name : Text) (new : Member) :
    Alike (f.replaceProperty name new) (g.replaceProperty name new) where
  toFrame := ⟨h.className, h.opening, h.closing, h.indent⟩
  members := by rw [f.members_replaceProperty, g.members_replaceProperty, h.members]

theorem Alike.replaceMethod (h : Alike f g) (name : Text) (new : Member) :
    Alike (f.replaceMethod name new) (g.replaceMethod name new) where
  toFrame := ⟨h.className, h.opening, h.closing, h.indent⟩
  members := by rw [f.members_replaceMethod, g.members_replaceMethod, h.members]

theorem Alike.withConstructor (h : Alike f g) : Alike f.withConstructor g.withConstructor := by
  have hsame : f.constructor? = g.constructor? := h.findMethod?_eq constructorName
  cases hc : g.constructor? with
  | some m =>
    simp only [ClassFile.withConstructor, hsame, hc]
    exact h
  | none =>
    refine ⟨?_, ?_⟩
    · simp only [ClassFile.withConstructor, hsame, hc]
      exact ⟨h.className, h.opening, h.closing, h.indent⟩
    · rw [f.members_withConstructor (hsame.trans hc), g.members_withConstructor hc, h.members]

end

end EntityScaffold.Source
