import EntityScaffold.Proofs.Lookalikes

/-!
# Relations that may be missing

A collection is empty rather than missing, so a relation to one is not meant to be nullable.  Reading a
relation sees to that, as far as it looks up the kind.  An assignment puts the relation right before
the attribute changes, not after: a nullable collection comes of an assignment, and goes with the next
one.

* `Relation.Tidy` — no nullable collection.
* `not_tidy_iff_of_checkRelation` — relations that are read.
* `Loosens`, `not_tidy_iff_of_assign` — one assignment: those that make a nullable collection.
* `not_tidy_iff_of_assignAll` — any number of assignments, by induction on them.
* `tidy_of_resolve`, `tidy_toRelation` — whatever has been assigned, a resolved relation is tidy, and so is
  one that stands for an inverse side.
-/

set_option autoImplicit false

namespace EntityScaffold

open Text

/-- The relation is not nullable if it is one to a collection. -/
def Relation.Tidy (r : Relation) : Prop := r.kind.isCollection = true → r.nullable = false

theorem Relation.not_tidy_iff {r : Relation} :
    ¬ r.Tidy ↔ r.kind.isCollection = true ∧ r.nullable = true := by
  rw [Relation.Tidy, Classical.not_imp, Bool.not_eq_false]

/-- A nullable relation to a collection becomes tidy where its defaults are filled in. -/
theorem tidy_of_resolve {r s : Relation} {self : Text} (h : r.resolve self = .ok s) : s.Tidy := by
  rw [Relation.resolve] at h
  cases howns : ownership r.kind r.owning with
  | error e =>
    rw [howns] at h
    cases h
  | ok owns =>
    rw [howns] at h
    cases h
    intro hkind
    show (r.nullable && !r.kind.isCollection) = false
    rw [show r.kind.isCollection = true from hkind, Bool.not_true, Bool.and_false]

theorem tidy_toRelation (side : InverseSide) : side.toRelation.Tidy := by
  intro hkind
  show (side.nullable && !side.kind.isCollection) = false
  rw [show side.kind.isCollection = true from hkind, Bool.not_true, Bool.and_false]

namespace Schema

/-! ## Reading a relation -/

/-- What a key that has to be there has been read from. -/
theorem exists_of_required {α : Type} {es : Entries Value} {key : Text} {check : Value → Checked α}
    {a : α} (h : required es (slot key) check = pure a) :
    ∃ v, Value.find? es key = some v ∧ check v = pure a := by
  have hslot : (slot key).find? es = Value.find? es key := by
    rw [Slot.find?, Slot.used, slot, ite_self]
  have h := Checked.of_under h
  rw [hslot] at h
  split at h
  · rename_i v hv
    exact ⟨v, hv, h⟩
  · cases h

/-- The kind of a relation is looked up under the key that it is read from. -/
theorem find?_kind_relationEntries (es : Entries Value) :
    Value.find? (relationEntries es) "kind" = Value.find? es "kind" := by
  unfold relationEntries
  split
  · split
    · exact Entries.find?_put_of_not_same _ (same_text_eq_false (by decide))
    · rfl
  · rfl

/-- Of what a relation is read, as far as its kind and its nullability go. -/
theorem exists_of_checkRelation {v : Value} {r : Relation} (h : checkRelation v = pure r) :
    ∃ es kind, v = .map es ∧ Value.find? es "kind" = some kind ∧ checkKind kind = pure r.kind ∧
      optional (relationEntries es) (slot "nullable") false checkBool = pure r.nullable := by
  unfold checkRelation checkMap at h
  split at h
  · rename_i es
    obtain ⟨h₀, -⟩ := Checked.seqLeft_eq_pure.mp h
    obtain ⟨f₁, _, hf₁, hnullable, rfl⟩ := Checked.seq_eq_pure.mp h₀
    -- the attributes between the two
    obtain ⟨f₂, _, hf₂, -, rfl⟩ := Checked.seq_eq_pure.mp hf₁
    obtain ⟨f₃, _, hf₃, -, rfl⟩ := Checked.seq_eq_pure.mp hf₂
    obtain ⟨f₄, _, hf₄, -, rfl⟩ := Checked.seq_eq_pure.mp hf₃
    obtain ⟨f₅, _, hf₅, -, rfl⟩ := Checked.seq_eq_pure.mp hf₄
    obtain ⟨f₆, _, hf₆, -, rfl⟩ := Checked.seq_eq_pure.mp hf₅
    obtain ⟨f₇, _, hf₇, -, rfl⟩ := Checked.seq_eq_pure.mp hf₆
    obtain ⟨f₈, _, hf₈, hkind, rfl⟩ := Checked.seq_eq_pure.mp hf₇
    obtain ⟨_, -, rfl⟩ := Checked.map_eq_pure.mp hf₈
    obtain ⟨v, hfind, hkind⟩ := exists_of_required hkind
    rw [find?_kind_relationEntries] at hfind
    exact ⟨es, v, rfl, hfind, hkind, hnullable⟩
  · cases h

/-- A kind is read from a text, in any spelling, or from the bytes of an exact one. -/
theorem text_or_bytes_of_checkKind {v : Value} {k : RelationKind} (h : checkKind v = pure k) :
    (∃ t, v = .text t ∧ RelationKind.ofKeyword? t = some k) ∨ ∃ bs, v = .bytes bs := by
  unfold checkKind at h
  split at h
  · rename_i t
    split at h
    · rename_i k' hk
      cases h
      exact .inl ⟨t, rfl, hk⟩
    · cases h
  · rename_i hne
    unfold checkExactKind textual at h
    split at h
    · rename_i t htext
      split at htext
      · exact absurd rfl (hne _)
      · exact .inr ⟨_, rfl⟩
      · cases htext
    · cases h

/-- **A relation that is read is tidy, but for one that names its kind in bytes**: no kind is looked
up in those, so what else is read counts. -/
theorem not_tidy_iff_of_checkRelation {es : Entries Value} {r : Relation}
    (h : checkRelation (.map es) = pure r) : ¬ r.Tidy ↔ r.kind.isCollection = true ∧
      (∃ bs, Value.find? es "kind" = some (.bytes bs)) ∧
      ∃ v, Value.find? es "nullable" = some v ∧ checkBool v = pure true := by
  obtain ⟨_, kind, hes, hfind, hkind, hnullable⟩ := exists_of_checkRelation h
  cases hes
  rw [Relation.not_tidy_iff]
  refine and_congr_right fun hcollection => ?_
  rcases text_or_bytes_of_checkKind hkind with ⟨t, rfl, hlookup⟩ | ⟨bs, rfl⟩
  · -- the kind has been looked up, and what is read for the nullability is not what was given
    have hput : relationEntries es = es.put (.text "nullable") (.bool false) := by
      rw [relationEntries, hfind]
      simp only [hlookup, Option.any_some, hcollection, if_true]
    rw [hput] at hnullable
    have hfalse : (false : Bool) = r.nullable :=
      Except.ok.inj (optional_of_find? (Entries.find?_put_self _ _ _) hnullable)
    constructor
    · rw [← hfalse]
      exact fun hfalse => by cases hfalse
    · rintro ⟨⟨bs, hbs⟩, -⟩
      rw [hfind] at hbs
      cases hbs
  · have hsame : relationEntries es = es := by rw [relationEntries, hfind]
    rw [hsame] at hnullable
    refine ⟨fun htrue => ⟨⟨bs, hfind⟩, ?_⟩, ?_⟩
    · rw [htrue] at hnullable
      cases hv : Value.find? es "nullable" with
      | none =>
        rw [optional, Slot.find?, Slot.used, slot, ite_self, hv] at hnullable
        cases hnullable
      | some v => exact ⟨v, rfl, optional_of_find? hv hnullable⟩
    · rintro ⟨-, v, hv, htrue⟩
      rw [optional_of_find? hv hnullable] at htrue
      exact Except.ok.inj htrue

/-! ## One assignment -/

section

variable {α : Type} {model : Text} {setters : Setters α}

/-- What a successful assignment is: it leaves the value alone, or it changes the value put right. -/
theorem eq_of_assign {name : Text} {v : Value} {a b : α}
    (h : assign model setters name v a = .ok b) :
    (startsWith "_" name = true ∧ b = a) ∨
      startsWith "_" name = false ∧ ∃ set change, (name, set) ∈ setters.assignable ∧
        set v = pure change ∧ b = change (setters.tidy a) := by
  unfold assign at h
  split at h
  · rename_i hname
    cases h
    exact .inl ⟨hname, rfl⟩
  · rename_i hname
    refine .inr ⟨by simpa using hname, ?_⟩
    split at h
    · cases h
    · dsimp only at h
      split at h
      · rename_i change hchange
        cases h
        have hchange := Checked.of_under hchange
        split at hchange
        · rename_i set hset
          obtain ⟨before, behind, hlist, -⟩ := List.lookup_eq_some_iff.mp hset
          exact ⟨set, change, by simp [hlist], hchange, rfl⟩
        · cases hchange
      · cases h

/-- One assignment after the other, up to the first that fails. -/
def assignAll (model : Text) (setters : Setters α) (as : List (Text × Value)) (a : α) :
    Except Failure α :=
  as.foldlM (fun a p => assign model setters p.1 p.2 a) a

theorem assignAll_concat (as : List (Text × Value)) (p : Text × Value) (a : α) :
    assignAll model setters (as ++ [p]) a =
      (assignAll model setters as a).bind (assign model setters p.1 p.2) := by
  rw [assignAll, assignAll, List.foldlM_append]
  refine congrArg _ (funext fun b => ?_)
  rw [List.foldlM_cons]
  cases assign model setters p.1 p.2 b <;> rfl

end

variable {r s : Relation} {name : Text} {v : Value}

theorem kind_tidyRelation (r : Relation) : (tidyRelation r).kind = r.kind := by
  unfold tidyRelation
  split <;> rfl

/-- What an assignment makes of the kind and the nullability of a relation. -/
theorem cases_of_assign (h : assign "RelationSpec" relationSetters name v r = .ok s) :
    (startsWith "_" name = true ∧ s = r) ∨
      startsWith "_" name = false ∧
        ((name = "kind" ∧ checkExactKind v = pure s.kind ∧
            s.nullable = (tidyRelation r).nullable) ∨
          (name = "nullable" ∧ checkBool v = pure s.nullable ∧ s.kind = r.kind) ∨
          (name ≠ "kind" ∧ name ≠ "nullable" ∧ s.kind = r.kind ∧
            s.nullable = (tidyRelation r).nullable)) := by
  rcases eq_of_assign h with hsame | ⟨hname, set, change, hmem, hset, rfl⟩
  · exact .inl hsame
  refine .inr ⟨hname, ?_⟩
  rw [← kind_tidyRelation r]
  -- the attributes other than these two leave both alone
  have hother : ∀ {β : Type} {key : Text} {check : Value → Checked β} {f : β → Relation → Relation},
      (name, set) = setter key check f →
      (∀ x t, (f x t).kind = t.kind ∧ (f x t).nullable = t.nullable) → key ≠ "kind" →
      key ≠ "nullable" → name ≠ "kind" ∧ name ≠ "nullable" ∧
        (change (relationSetters.tidy r)).kind = (tidyRelation r).kind ∧
        (change (relationSetters.tidy r)).nullable = (tidyRelation r).nullable := by
    intro β key check f heq hf hkind hnullable
    cases heq
    obtain ⟨x, -, rfl⟩ := Checked.map_eq_pure.mp hset
    exact ⟨hkind, hnullable, hf x _⟩
  simp only [relationSetters, List.mem_cons, List.not_mem_nil, or_false] at hmem
  rcases hmem with heq | heq | heq | heq | heq | heq | heq | heq | heq
  on_goal 9 =>
    cases heq
    obtain ⟨b, hb, rfl⟩ := Checked.map_eq_pure.mp hset
    exact .inr (.inl ⟨rfl, hb, rfl⟩)
  on_goal 2 =>
    cases heq
    obtain ⟨k, hk, rfl⟩ := Checked.map_eq_pure.mp hset
    exact .inl ⟨rfl, hk, rfl⟩
  all_goals exact .inr (.inr (hother heq (fun _ _ => ⟨rfl, rfl⟩) (by decide) (by decide)))

/-- The assignments that make a nullable collection of a relation: that of its nullability to a
collection, and that of a collection's kind to a nullable reference. -/
inductive Loosens (r : Relation) : Text → Value → Prop where
  | nullable {v : Value} (kind : r.kind.isCollection = true) (value : checkBool v = pure true) :
    Loosens r "nullable" v
  | kind {v : Value} {k : RelationKind} (reference : r.kind.isCollection = false)
    (nullable : r.nullable = true) (value : checkExactKind v = pure k)
    (collection : k.isCollection = true) : Loosens r "kind" v

theorem Loosens.startsWith_eq (h : Loosens r name v) : startsWith "_" name = false := by
  cases h <;> decide

theorem nullable_tidyRelation :
    (tidyRelation r).nullable = true ↔ r.kind.isCollection = false ∧ r.nullable = true := by
  unfold tidyRelation
  cases hkind : r.kind.isCollection <;> simp

/-- **One assignment**: the relation is a nullable collection afterwards if it was one and the name
tells of no attribute, or if the assignment loosens it. -/
theorem not_tidy_iff_of_assign (h : assign "RelationSpec" relationSetters name v r = .ok s) :
    ¬ s.Tidy ↔ (startsWith "_" name = true ∧ ¬ r.Tidy) ∨ Loosens r name v := by
  rcases cases_of_assign h with ⟨hname, rfl⟩ | ⟨hname, hcases⟩
  · constructor
    · exact fun hs => .inl ⟨hname, hs⟩
    · rintro (⟨-, hs⟩ | hloosens)
      · exact hs
      · rw [hloosens.startsWith_eq] at hname
        cases hname
  have hright : (startsWith "_" name = true ∧ ¬ r.Tidy) ∨ Loosens r name v ↔ Loosens r name v :=
    or_iff_right fun hleft => by rw [hname] at hleft; cases hleft.1
  rw [hright, Relation.not_tidy_iff]
  rcases hcases with ⟨rfl, hk, hnullable⟩ | ⟨rfl, hb, hkind⟩ | ⟨hne, hne', hkind, hnullable⟩
  · rw [hnullable, nullable_tidyRelation]
    constructor
    · rintro ⟨hcollection, hreference, hloose⟩
      exact .kind hreference hloose hk hcollection
    · intro hloosens
      cases hloosens with
      | kind hreference hloose hvalue hcollection =>
        rw [hk] at hvalue
        cases hvalue
        exact ⟨hcollection, hreference, hloose⟩
  · rw [hkind]
    constructor
    · rintro ⟨hcollection, htrue⟩
      rw [htrue] at hb
      exact .nullable hcollection hb
    · intro hloosens
      cases hloosens with
      | nullable hcollection hvalue =>
        rw [hb] at hvalue
        exact ⟨hcollection, Except.ok.inj hvalue⟩
  · rw [hkind, hnullable, nullable_tidyRelation]
    constructor
    · rintro ⟨hcollection, hreference, -⟩
      rw [hcollection] at hreference
      cases hreference
    · intro hloosens
      cases hloosens with
      | nullable => exact absurd rfl hne'
      | kind => exact absurd rfl hne

/-! ## Any number of assignments -/

/-- **Any number of assignments** to a relation: it is a nullable collection afterwards exactly if the
last of them that tells of an attribute loosens it, or there is none and it was one before. -/
theorem not_tidy_iff_of_assignAll {as : List (Text × Value)}
    (h : assignAll "RelationSpec" relationSetters as r = .ok s) :
    ¬ s.Tidy ↔ (¬ r.Tidy ∧ ∀ a ∈ as, startsWith "_" a.1 = true) ∨
      ∃ before name v behind t, as = before ++ (name, v) :: behind ∧
        assignAll "RelationSpec" relationSetters before r = .ok t ∧ Loosens t name v ∧
        ∀ a ∈ behind, startsWith "_" a.1 = true := by
  induction as using List.reverseRecOn generalizing s with
  | nil =>
    cases h
    refine ⟨fun hr => .inl ⟨hr, by simp⟩, ?_⟩
    rintro (⟨hr, -⟩ | ⟨before, name, v, behind, t, hnil, -⟩)
    · exact hr
    · simp at hnil
  | append_singleton as a ih =>
    obtain ⟨name, v⟩ := a
    rw [assignAll_concat] at h
    obtain ⟨t, ht, hlast⟩ : ∃ t, assignAll "RelationSpec" relationSetters as r = .ok t ∧
        assign "RelationSpec" relationSetters name v t = .ok s := by
      cases ht : assignAll "RelationSpec" relationSetters as r with
      | error e =>
        rw [ht] at h
        cases h
      | ok t =>
        rw [ht] at h
        exact ⟨t, rfl, h⟩
    rw [not_tidy_iff_of_assign hlast]
    constructor
    · rintro (⟨hname, hnot⟩ | hloosens)
      · have hall : ∀ {as : List (Text × Value)}, (∀ a ∈ as, startsWith "_" a.1 = true) →
            ∀ a ∈ as ++ [(name, v)], startsWith "_" a.1 = true := by
          intro as has a ha
          rcases List.mem_append.mp ha with ha | ha
          · exact has a ha
          · exact List.mem_singleton.mp ha ▸ hname
        rcases (ih ht).mp hnot with ⟨hr, hquiet⟩ | ⟨before, name', v', behind, u, rfl, hu, hl, hquiet⟩
        · exact .inl ⟨hr, hall hquiet⟩
        · exact .inr ⟨before, name', v', behind ++ [(name, v)], u, by simp, hu, hl, hall hquiet⟩
      · exact .inr ⟨as, name, v, [], t, rfl, ht, hloosens, by simp⟩
    · rintro (⟨hr, hquiet⟩ | ⟨before, name', v', behind, u, has, hu, hl, hquiet⟩)
      · exact .inl ⟨hquiet (name, v) (by simp),
          (ih ht).mpr (.inl ⟨hr, fun a ha => hquiet a (by simp [ha])⟩)⟩
      · rcases List.eq_nil_or_concat behind with rfl | ⟨behind, b, rfl⟩
        · obtain ⟨rfl, hlast⟩ := List.append_inj' has rfl
          cases hlast
          rw [ht] at hu
          cases hu
          exact .inr hl
        · have has : as ++ [(name, v)] = (before ++ (name', v') :: behind) ++ [b] := by
            simpa using has
          obtain ⟨rfl, hlast⟩ := List.append_inj' has rfl
          cases hlast
          exact .inl ⟨hquiet (name, v) (by simp), (ih ht).mpr
            (.inr ⟨before, name', v', behind, u, rfl, hu, hl, fun a ha => hquiet a (by simp [ha])⟩)⟩

/-- As long as neither the kind nor the nullability is assigned to, a tidy relation stays tidy. -/
theorem tidy_of_assignAll {as : List (Text × Value)}
    (h : assignAll "RelationSpec" relationSetters as r = .ok s) (hr : r.Tidy)
    (has : ∀ a ∈ as, a.1 ≠ "kind" ∧ a.1 ≠ "nullable") : s.Tidy := by
  by_contra hs
  rcases (not_tidy_iff_of_assignAll h).mp hs with
    ⟨hnot, -⟩ | ⟨before, name, v, behind, t, rfl, -, hloosens, -⟩
  · exact hnot hr
  · obtain ⟨hkind, hnullable⟩ := has (name, v) (by simp)
    cases hloosens with
    | nullable => exact hnullable rfl
    | kind => exact hkind rfl

/-- A collection that is made nullable stops being so when its target changes. -/
example :
    let comments : Relation := { kind := .oneToMany, target := "Comment" }
    let run as := assignAll "RelationSpec" relationSetters as comments
    run [("nullable", .bool true)] = .ok { comments with nullable := true } ∧
      run [("nullable", .bool true), ("target", .text "Note")] =
        .ok { comments with target := "Note" } := by
  decide

end Schema

end EntityScaffold
