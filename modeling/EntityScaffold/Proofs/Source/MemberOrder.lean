import EntityScaffold.Proofs.Source.Members
import EntityScaffold.Proofs.Text.Lines

/-!
# The order of members under edits

What each structural edit does to the members of a class is told without the gaps: where a new member
comes, which members go, and that all others stay in their order.  A class whose properties stand in
front of its methods keeps them there, however many edits are made.

* `Change`, `ClassFile.changed` — the edits, and many of them one after another.
* `replaceProperty_eq`, `replaceMethod_eq` — replacing by name is replacing at a place, and fits
  (`fits_replaceProperty`, `fits_replaceMethod`).
* `Effect` — what an edit does to the members; `effect_apply` — it does so.
* `PropertiesFirst` — no property follows a method; `Effect.propertiesFirst` — one edit keeps that.
* `ClassFile.changed_keeps_layout` — the same for every sequence of edits.
-/

set_option autoImplicit false

namespace EntityScaffold.Source

open Text

/-! ## Replacing at a place -/

/-- What a member is. -/
inductive MemberKind where
  | property
  | method
  | verbatim
  deriving DecidableEq, Repr

def Member.kind : Member → MemberKind
  | .property _ => .property
  | .method _ => .method
  | .verbatim _ => .verbatim

def Member.isProperty : Member → Bool
  | .property _ => true
  | _ => false

theorem Member.isMethod_eq_of_kind {a b : Member} (h : a.kind = b.kind) :
    a.isMethod = b.isMethod := by
  cases a <;> cases b <;> first | rfl | cases h

theorem Member.isProperty_eq_of_kind {a b : Member} (h : a.kind = b.kind) :
    a.isProperty = b.isProperty := by
  cases a <;> cases b <;> first | rfl | cases h

/-- A method is no property. -/
theorem Member.isProperty_of_isMethod {m : Member} (h : m.isMethod = true) :
    m.isProperty = false := by
  cases m with
  | method k => rfl
  | property p => cases h
  | verbatim t => cases h

/-- The items with another member in place of the `n`-th; gaps do not count. -/
def replaceNth (new : Member) : Nat → List Item → List Item
  | _, [] => []
  | n, .gap :: items => .gap :: replaceNth new n items
  | 0, .member _ :: items => .member new :: items
  | n + 1, .member m :: items => .member m :: replaceNth new n items

theorem membersOf_replaceNth (new : Member) (n : Nat) (items : List Item) :
    membersOf (replaceNth new n items) = (membersOf items).set n new := by
  induction items generalizing n with
  | nil => cases n <;> rfl
  | cons item items ih =>
    cases item with
    | gap => cases n <;> exact ih _
    | member m =>
      cases n with
      | zero => rfl
      | succ n =>
        show m :: membersOf (replaceNth new n items) = m :: (membersOf items).set n new
        rw [ih]

/-- Replacing the first item of some kind is replacing at its place. -/
theorem modifyFirst_eq_replaceNth {p : Item → Bool} {q : Member → Bool} (hgap : p .gap = false)
    (hmember : ∀ m, p (.member m) = q m) (new : Member) (items : List Item) :
    modifyFirst p (fun _ => .member new) items =
      replaceNth new ((membersOf items).findIdx q) items := by
  induction items with
  | nil => rfl
  | cons item items ih =>
    cases item with
    | gap =>
      rw [modifyFirst, hgap, if_neg Bool.false_ne_true, ih, membersOf_gap]
      cases (membersOf items).findIdx q <;> rfl
    | member m =>
      rw [modifyFirst, hmember, membersOf_member, List.findIdx_cons]
      cases hq : q m with
      | true => rfl
      | false =>
        rw [if_neg Bool.false_ne_true, ih]
        rfl

namespace ClassFile

variable {f : ClassFile}

/-- The class with another member in place of its `n`-th. -/
def replaceNth (f : ClassFile) (n : Nat) (new : Member) : ClassFile :=
  { f with items := Source.replaceNth new n f.items }

theorem members_replaceNth (n : Nat) (new : Member) :
    (f.replaceNth n new).members = f.members.set n new :=
  membersOf_replaceNth new n f.items

theorem members_removeProperty (name : Text) :
    (f.removeProperty name).members = f.members.filter (!·.isPropertyNamed name) :=
  membersOf_filter (p := (!·.isPropertyNamed name)) rfl (fun m => by cases m <;> rfl) _

/-- Replacing a property by name is replacing at its place. -/
theorem replaceProperty_eq (name : Text) (new : Member) :
    f.replaceProperty name new = f.replaceNth (f.members.findIdx (·.isPropertyNamed name)) new := by
  have hitems := modifyFirst_eq_replaceNth (p := (·.isPropertyNamed name))
    (q := (·.isPropertyNamed name)) rfl (fun m => by cases m <;> rfl) new f.items
  rw [replaceProperty, hitems]
  rfl

/-- Replacing a method by name is replacing at its place. -/
theorem replaceMethod_eq (name : Text) (new : Member) :
    f.replaceMethod name new = f.replaceNth (f.members.findIdx (·.isMethodNamed name)) new := by
  have hitems := modifyFirst_eq_replaceNth (p := (·.isMethodNamed name))
    (q := (·.isMethodNamed name)) rfl (fun m => by cases m <;> rfl) new f.items
  rw [replaceMethod, hitems]
  rfl

end ClassFile

/-! ## Edits -/

/-- A structural edit of a class. -/
inductive Change where
  | insertProperty (p : Property)
  | insertMethod (m : Method)
  /-- Adds a constructor, unless there is one. -/
  | findOrCreateConstructor
  | removeProperty (name : Text)
  | removeMethod (name : Text)
  | replaceNth (n : Nat) (new : Member)

namespace Change

def apply (f : ClassFile) : Change → ClassFile
  | .insertProperty p => f.insertProperty p
  | .insertMethod m => f.insertMethod m
  | .findOrCreateConstructor => f.withConstructor
  | .removeProperty name => f.removeProperty name
  | .removeMethod name => f.removeMethod name
  | .replaceNth n new => f.replaceNth n new

/-- Whether an edit is one of the class: what is replaced is there, and is replaced by its like. -/
def fits (f : ClassFile) : Change → Bool
  | .replaceNth n new => f.members[n]?.map (·.kind) == some new.kind
  | _ => true

end Change

/-- The class after some edits. -/
def ClassFile.changed (f : ClassFile) (cs : List Change) : ClassFile := cs.foldl Change.apply f

/-- Whether each edit fits the class that the earlier ones have left. -/
def ClassFile.admits (f : ClassFile) : List Change → Bool
  | [] => true
  | c :: cs => c.fits f && (c.apply f).admits cs

/-- The first member of some sort is replaced by its like in an edit that fits. -/
theorem fits_replaceNth_findIdx {f : ClassFile} {q : Member → Bool} {new : Member}
    (hany : ∃ m ∈ f.members, q m = true) (hkind : ∀ m, q m = true → m.kind = new.kind) :
    (Change.replaceNth (f.members.findIdx q) new).fits f = true := by
  have hlt := List.findIdx_lt_length.mpr hany
  have hfound := List.findIdx_getElem (w := hlt)
  show (f.members[f.members.findIdx q]?.map (·.kind) == some new.kind) = true
  rw [List.getElem?_eq_getElem hlt, Option.map_some, hkind _ hfound]
  exact BEq.rfl

/-- A property that is found is replaced by another one in an edit that fits. -/
theorem fits_replaceProperty {f : ClassFile} {name : Text}
    (h : (f.findProperty? name).isSome = true) (p : Property) :
    (Change.replaceNth (f.members.findIdx (·.isPropertyNamed name)) (.property p)).fits f =
      true := by
  obtain ⟨q, hq⟩ := Option.isSome_iff_exists.mp h
  obtain ⟨m, hm, hmq⟩ := List.mem_filterMap.mp (List.mem_of_find?_eq_some hq)
  have hname := List.find?_some hq
  refine fits_replaceNth_findIdx ⟨m, hm, ?_⟩ fun k hk => ?_
  · cases m <;> cases hmq
    exact hname
  · cases k with
    | property r => rfl
    | method j => cases hk
    | verbatim t => cases hk

/-- A method that is found is replaced by another one in an edit that fits. -/
theorem fits_replaceMethod {f : ClassFile} {name : Text}
    (h : (f.findMethod? name).isSome = true) (new : Method) :
    (Change.replaceNth (f.members.findIdx (·.isMethodNamed name)) (.method new)).fits f = true := by
  obtain ⟨j, hj⟩ := Option.isSome_iff_exists.mp h
  obtain ⟨m, hm, hmj⟩ := List.mem_filterMap.mp (List.mem_of_find?_eq_some hj)
  have hname := List.find?_some hj
  refine fits_replaceNth_findIdx ⟨m, hm, ?_⟩ fun k hk => ?_
  · cases m <;> cases hmj
    exact hname
  · cases k with
    | method r => rfl
    | property p => cases hk
    | verbatim t => cases hk

/-! ## What an edit does to the members -/

/-- What an edit makes of the members of a class. -/
inductive Effect : Change → List Member → List Member → Prop where
  /-- A new property comes behind the last of the members that precede the first method, to the
  front if there are none. -/
  | insertProperty (p : Property) {early late : List Member}
      (hearly : ∀ m ∈ early, m.isMethod = false) (hlate : ∀ m ∈ late.head?, m.isMethod = true) :
      Effect (.insertProperty p) (early ++ late) (early ++ .property p :: late)
  /-- A new method comes behind the last method. -/
  | insertMethod (m : Method) {early late : List Member} {k : Method}
      (hlast : ∀ m ∈ late, m.isMethod = false) :
      Effect (.insertMethod m) (early ++ .method k :: late)
        (early ++ .method k :: .method m :: late)
  /-- The first method comes to the end. -/
  | insertFirstMethod (m : Method) {ms : List Member} (hnone : ∀ m ∈ ms, m.isMethod = false) :
      Effect (.insertMethod m) ms (ms ++ [.method m])
  /-- A class with a constructor stays as it is. -/
  | keepConstructor {ms : List Member} {k : Method} (hk : k.isConstructor = true)
      (hmem : .method k ∈ ms) : Effect .findOrCreateConstructor ms ms
  /-- A class without one gets one in front of its first method. -/
  | addConstructor {early late : List Member}
      (hnone : ∀ k, .method k ∈ early ++ late → k.isConstructor = false)
      (hearly : ∀ m ∈ early, m.isMethod = false) (hlate : ∀ m ∈ late.head?, m.isMethod = true) :
      Effect .findOrCreateConstructor (early ++ late) (early ++ .method emptyConstructor :: late)
  /-- The properties of a name go. -/
  | removeProperty (name : Text) {ms : List Member} :
      Effect (.removeProperty name) ms (ms.filter (!·.isPropertyNamed name))
  /-- The methods of a name go. -/
  | removeMethod (name : Text) {ms : List Member} :
      Effect (.removeMethod name) ms (ms.filter (!·.isMethodNamed name))
  /-- A member takes the place of another one of its kind. -/
  | replaceNth {early late : List Member} {old new : Member} (hkind : old.kind = new.kind) :
      Effect (.replaceNth early.length new) (early ++ old :: late) (early ++ new :: late)

/-- Members cut in front of the first method. -/
theorem exists_insertBefore (new : Member) (ms : List Member) :
    ∃ early late, ms = early ++ late ∧ insertBefore new ms = early ++ new :: late ∧
      (∀ m ∈ early, m.isMethod = false) ∧ ∀ m ∈ late.head?, m.isMethod = true := by
  refine ⟨_, _, List.takeWhile_append_dropWhile.symm, rfl, fun m hm => ?_, fun m hm => ?_⟩
  · simpa using List.mem_takeWhile_imp hm
  · simpa using head?_dropWhile (!·.isMethod) ms m hm

/-- Members cut behind the last method. -/
theorem exists_insertBehind (new : Member) (ms : List Member) :
    (∃ early k late, ms = early ++ .method k :: late ∧
      insertBehind new ms = early ++ .method k :: new :: late ∧ ∀ m ∈ late, m.isMethod = false) ∨
    insertBehind new ms = ms ++ [new] ∧ ∀ m ∈ ms, m.isMethod = false := by
  rw [insertBehind]
  cases hany : ms.any (·.isMethod) with
  | false =>
    refine .inr ⟨rfl, fun m hm => ?_⟩
    exact Bool.eq_false_iff.mpr (List.any_eq_false.mp hany m hm)
  | true =>
    left
    have hsplit : ms = (ms.reverse.dropWhile (!·.isMethod)).reverse ++
        (ms.reverse.takeWhile (!·.isMethod)).reverse := by
      rw [← List.reverse_append, List.takeWhile_append_dropWhile, List.reverse_reverse]
    have hlate : ∀ m ∈ (ms.reverse.takeWhile (!·.isMethod)).reverse, m.isMethod = false := by
      intro m hm
      simpa using List.mem_takeWhile_imp (List.mem_reverse.mp hm)
    -- read from the end, what is left begins with the last method
    have hhead := head?_dropWhile (!·.isMethod) ms.reverse
    cases hdrop : ms.reverse.dropWhile (!·.isMethod) with
    | nil =>
      rw [hdrop, List.reverse_nil, List.nil_append] at hsplit
      obtain ⟨m, hm, hmethod⟩ := List.any_eq_true.mp hany
      rw [hsplit] at hm
      rw [hlate m hm] at hmethod
      cases hmethod
    | cons last front =>
      rw [hdrop] at hsplit hhead
      cases last with
      | property p => simp [Member.isMethod] at hhead
      | verbatim t => simp [Member.isMethod] at hhead
      | method k =>
        refine ⟨front.reverse, k, _, ?_, ?_, hlate⟩
        · rw [List.reverse_cons, List.append_assoc] at hsplit
          exact hsplit
        · simp

/-- Asking for the constructor changes nothing, or puts one in front of the first method. -/
theorem effect_withConstructor (f : ClassFile) :
    Effect .findOrCreateConstructor f.members f.withConstructor.members := by
  cases hc : f.constructor? with
  | some k =>
    have hsame : f.withConstructor = f := by
      unfold ClassFile.withConstructor
      rw [hc]
      rfl
    have hk : k.isConstructor = true := by
      have hnamed := List.find?_some hc
      unfold ClassFile.isMethodNamed at hnamed
      rwa [lower_constructorName] at hnamed
    obtain ⟨m, hm, hmk⟩ := List.mem_filterMap.mp (List.mem_of_find?_eq_some hc)
    rw [hsame]
    cases m <;> cases hmk
    exact .keepConstructor hk hm
  | none =>
    obtain ⟨early, late, hms, hnew, hearly, hlate⟩ :=
      exists_insertBefore (.method emptyConstructor) f.members
    rw [f.members_withConstructor hc, hnew, hms]
    refine .addConstructor (fun k hk => ?_) hearly hlate
    have hmem : k ∈ f.methods := List.mem_filterMap.mpr ⟨_, hms ▸ hk, rfl⟩
    have hother := List.find?_eq_none.mp hc k hmem
    unfold ClassFile.isMethodNamed at hother
    rw [lower_constructorName] at hother
    exact Bool.eq_false_iff.mpr hother

/-- Replacing the `n`-th member leaves those before and behind it. -/
theorem effect_set {ms : List Member} {n : Nat} {old new : Member} (hold : ms[n]? = some old)
    (hkind : old.kind = new.kind) : Effect (.replaceNth n new) ms (ms.set n new) := by
  obtain ⟨hlt, rfl⟩ := List.getElem?_eq_some_iff.mp hold
  have hsplit : ms = ms.take n ++ ms[n] :: ms.drop (n + 1) := by
    rw [List.getElem_cons_drop, List.take_append_drop]
  have hlength : (ms.take n).length = n := by
    rw [List.length_take]
    omega
  have hset : ms.set n new = ms.take n ++ new :: ms.drop (n + 1) :=
    List.set_eq_take_append_cons_drop.trans (if_pos hlt)
  have heffect : Effect (.replaceNth (ms.take n).length new)
      (ms.take n ++ ms[n] :: ms.drop (n + 1)) (ms.take n ++ new :: ms.drop (n + 1)) :=
    .replaceNth hkind
  rwa [hlength, ← hsplit, ← hset] at heffect

/-- **An edit that fits does so.** -/
theorem effect_apply {f : ClassFile} {c : Change} (h : c.fits f = true) :
    Effect c f.members (c.apply f).members := by
  cases c with
  | insertProperty p =>
    obtain ⟨early, late, hms, hnew, hearly, hlate⟩ := exists_insertBefore (.property p) f.members
    rw [Change.apply, f.members_insertProperty, hnew, hms]
    exact .insertProperty p hearly hlate
  | insertMethod m =>
    rw [Change.apply, f.members_insertMethod]
    rcases exists_insertBehind (.method m) f.members with
      ⟨early, k, late, hms, hnew, hlate⟩ | ⟨hnew, hnone⟩
    · rw [hnew, hms]
      exact .insertMethod m hlate
    · rw [hnew]
      exact .insertFirstMethod m hnone
  | findOrCreateConstructor => exact effect_withConstructor f
  | removeProperty name =>
    rw [Change.apply, f.members_removeProperty]
    exact .removeProperty name
  | removeMethod name =>
    rw [Change.apply, f.members_removeMethod]
    exact .removeMethod name
  | replaceNth n new =>
    unfold Change.fits at h
    rw [beq_iff_eq, Option.map_eq_some_iff] at h
    obtain ⟨old, hold, hkind⟩ := h
    rw [Change.apply, f.members_replaceNth]
    exact effect_set hold hkind

/-! ## Properties in front of methods -/

/-- No property follows a method. -/
def PropertiesFirst (ms : List Member) : Prop :=
  ms.Pairwise fun a b => a.isMethod = true → b.isProperty = false

/-- A new member comes between members that it may follow and members that may follow it. -/
theorem PropertiesFirst.insert {s t : List Member} {new : Member} (h : PropertiesFirst (s ++ t))
    (hbefore : (∀ a ∈ s, a.isMethod = false) ∨ new.isProperty = false)
    (hbehind : new.isMethod = false ∨ ∀ b ∈ t, b.isProperty = false) :
    PropertiesFirst (s ++ new :: t) := by
  unfold PropertiesFirst at h ⊢
  rw [List.pairwise_append] at h ⊢
  obtain ⟨hs, ht, hst⟩ := h
  refine ⟨hs, List.pairwise_cons.mpr ⟨fun b hb hnew => ?_, ht⟩, fun a ha b hb hmethod => ?_⟩
  · rcases hbehind with hnot | hall
    · rw [hnot] at hnew
      cases hnew
    · exact hall b hb
  · rcases List.mem_cons.mp hb with rfl | hb
    · rcases hbefore with hall | hnot
      · rw [hall a ha] at hmethod
        cases hmethod
      · exact hnot
    · exact hst a ha b hb hmethod

/-- Behind the first method no property stands. -/
theorem PropertiesFirst.late {early late : List Member} (h : PropertiesFirst (early ++ late))
    (hlate : ∀ m ∈ late.head?, m.isMethod = true) : ∀ m ∈ late, m.isProperty = false := by
  cases late with
  | nil =>
    intro m hm
    cases hm
  | cons first late =>
    have hfirst := hlate first rfl
    have hrest := (List.pairwise_cons.mp (List.pairwise_append.mp h).2.1).1
    intro m hm
    rcases List.mem_cons.mp hm with rfl | hm
    · exact Member.isProperty_of_isMethod hfirst
    · exact hrest m hm hfirst

/-- **An edit puts no property behind a method.** -/
theorem Effect.propertiesFirst {c : Change} {ms ms' : List Member} (h : Effect c ms ms')
    (hms : PropertiesFirst ms) : PropertiesFirst ms' := by
  cases h with
  | insertProperty p hearly hlate => exact hms.insert (.inl hearly) (.inl rfl)
  | @insertMethod m early late k hlast =>
    -- what follows the last method follows the new one
    have hfrom : ∀ b ∈ Member.method k :: late, b.isProperty = false :=
      hms.late fun m hm => by
        cases hm
        rfl
    have hlate : ∀ b ∈ late, b.isProperty = false := fun b hb =>
      hfrom b (List.mem_cons_of_mem _ hb)
    have hsplit : early ++ .method k :: .method m :: late =
        (early ++ [.method k]) ++ .method m :: late := by simp
    have hsame : early ++ .method k :: late = (early ++ [.method k]) ++ late := by simp
    rw [hsplit]
    rw [hsame] at hms
    exact hms.insert (.inr rfl) (.inr hlate)
  | insertFirstMethod m hnone =>
    rw [← List.append_nil ms] at hms
    exact hms.insert (.inr rfl) (.inr fun b hb => by cases hb)
  | keepConstructor hk hmem => exact hms
  | addConstructor hnone hearly hlate =>
    exact hms.insert (.inl hearly) (.inr (hms.late hlate))
  | removeProperty name => exact List.Pairwise.filter _ hms
  | removeMethod name => exact List.Pairwise.filter _ hms
  | @replaceNth early late old new hkind =>
    have hmethod := Member.isMethod_eq_of_kind hkind
    have hproperty := Member.isProperty_eq_of_kind hkind
    unfold PropertiesFirst at hms ⊢
    simpa only [List.pairwise_append, List.pairwise_cons, List.mem_cons, forall_eq_or_imp, hmethod,
      hproperty] using hms

/-! ## Many edits -/

namespace ClassFile

variable {f : ClassFile} {cs : List Change}

theorem changed_append (cs more : List Change) :
    f.changed (cs ++ more) = (f.changed cs).changed more :=
  List.foldl_append

/-- The later edits fit once the earlier ones have been made. -/
theorem admits_append {more : List Change} (h : f.admits (cs ++ more) = true) :
    (f.changed cs).admits more = true := by
  induction cs generalizing f with
  | nil => exact h
  | cons c cs ih =>
    rw [List.cons_append, admits, Bool.and_eq_true] at h
    exact ih h.2

theorem propertiesFirst_changed (h : f.admits cs = true) (hf : PropertiesFirst f.members) :
    PropertiesFirst (f.changed cs).members := by
  induction cs generalizing f with
  | nil => exact hf
  | cons c cs ih =>
    rw [admits, Bool.and_eq_true] at h
    exact ih h.2 ((effect_apply h.1).propertiesFirst hf)

/-- **Each of many edits changes the members as it would alone, and a class whose properties stand in
front of its methods stays one.** -/
theorem changed_keeps_layout (h : f.admits cs = true) :
    (∀ done c more, cs = done ++ c :: more →
      Effect c (f.changed done).members (f.changed (done ++ [c])).members) ∧
    (PropertiesFirst f.members → PropertiesFirst (f.changed cs).members) := by
  refine ⟨?_, propertiesFirst_changed h⟩
  rintro done c more rfl
  have hc := admits_append h
  rw [admits, Bool.and_eq_true] at hc
  rw [changed_append]
  exact effect_apply hc.1

/-- A class with a constant, a property and a method, with gaps between them. -/
def arranged : ClassFile where
  className := "Post"
  opening := "<?php\n\nclass Post\n\x7b"
  items := [.member (.verbatim "const MAX = 5;"), .gap,
    .member (.property ⟨"id", "public int $id;", []⟩), .gap,
    .member (.method { name := "touch", head := "abstract function touch();" })]
  closing := "\x7d\n"
  indent := "    "
  path := none

/-- All kinds of edits of that class. -/
def arrangements : List Change :=
  [.insertProperty ⟨"title", "public string $title;", []⟩,
    .replaceNth 1 (.property ⟨"id", "public string $id;", []⟩),
    .insertMethod { name := "getId", head := "abstract function getId();" },
    .findOrCreateConstructor,
    .removeMethod "TOUCH",
    .removeProperty "title"]

theorem changed_keeps_layout_of_arranged : arranged.admits arrangements = true ∧
    (∀ done c more, arrangements = done ++ c :: more →
      Effect c (arranged.changed done).members (arranged.changed (done ++ [c])).members) ∧
    (PropertiesFirst arranged.members → PropertiesFirst (arranged.changed arrangements).members) :=
  have h : arranged.admits arrangements = true := by decide
  ⟨h, changed_keeps_layout h⟩

end ClassFile

end EntityScaffold.Source
