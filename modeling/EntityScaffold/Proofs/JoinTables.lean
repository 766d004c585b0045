import EntityScaffold.Proofs.Accepted

/-!
# Default join tables

The two sides of a many-to-many relation reckon up its join table independently of each other: they
agree on the name, and have the columns the other way round.  The columns go by the words of the
entities' names, so they are the same where these words are, as for an entity related to itself.

* `defaultJoinTable_flipped` — the table from the other side.
* `columns_ne_iff` — when the columns differ.
* `joinTable_of_manyToMany` — the table of a relation in an accepted plan.
-/

set_option autoImplicit false

namespace EntityScaffold

open Text

/-! ## The order of names -/

theorem before_asymm {s t : Text} (h : before s t = true) : before t s = false := by
  fun_induction before s t with
  | case1 => cases h
  | case2 => rfl
  | case3 c s t ih =>
    rw [before, if_pos rfl]
    exact ih h
  | case4 c s d t hne =>
    rw [before, if_neg (Ne.symm hne)]
    rw [decide_eq_true_eq] at h
    exact decide_eq_false (Nat.not_lt.mpr (Nat.le_of_lt h))

theorem eq_of_before {s t : Text} (h : before s t = false) (h' : before t s = false) : s = t := by
  fun_induction before s t with
  | case1 s =>
    cases s with
    | nil => rfl
    | cons c s => cases h'
  | case2 => cases h
  | case3 c s t ih =>
    rw [before, if_pos rfl] at h'
    rw [ih h h']
  | case4 c s d t hne =>
    rw [before, if_neg (Ne.symm hne), decide_eq_false_iff_not] at h'
    rw [decide_eq_false_iff_not] at h
    exact absurd (Char.toNat_inj.mp (by omega)) hne

/-- Two texts are sorted alike in either order. -/
theorem sort_pair_comm (s t : Text) : Text.sort [s, t] = Text.sort [t, s] := by
  have hpair : ∀ s t : Text, Text.sort [s, t] = if before t s then [t, s] else [s, t] := by
    intro s t
    simp only [Text.sort, sortBy, List.foldr_cons, List.foldr_nil, insertSorted]
    cases before t s <;> rfl
  rw [hpair, hpair]
  cases hst : before s t with
  | true =>
    rw [before_asymm hst]
    rfl
  | false =>
    cases hts : before t s with
    | true => rfl
    | false => rw [eq_of_before hst hts]

/-! ## The table from either side -/

/-- The join table as the other side sees it. -/
def JoinTable.flipped (j : JoinTable) : JoinTable where
  name := j.name
  joinColumn := j.inverseColumn
  inverseColumn := j.joinColumn

/-- **Both sides of a relation have the same default table, with the columns swapped.** -/
theorem defaultJoinTable_flipped (self target : Text) :
    (defaultJoinTable self target).flipped = defaultJoinTable target self := by
  rw [defaultJoinTable, defaultJoinTable, sort_pair_comm]
  rfl

/-- **The columns of a default table differ exactly if the entities' names differ in their
words.** -/
theorem columns_ne_iff (self target : Text) :
    (defaultJoinTable self target).joinColumn ≠ (defaultJoinTable self target).inverseColumn ↔
      snakeCase (shortName self) ≠ snakeCase (shortName target) :=
  not_congr (List.append_left_inj ("_id" : Text))

/-- The friends of a user: both columns have one name. -/
example : defaultJoinTable "User" "User" = ⟨"user_user", "user_id", "user_id"⟩ := by decide

/-! ## Relations of an accepted plan -/

namespace Validation

variable {p : Plan} {known : Option (List Text)} {r s : Relation} {c : Config}

/-- **A many-to-many relation without a join table of its own gets the default one**, on the side
that owns it; the columns differ unless the names of the two entities have the same words. -/
theorem joinTable_of_manyToMany (hvalid : (validatePlan p known).isValid = true)
    (hkind : r.kind = .manyToMany) (hnone : r.joinTable = none)
    (hresolve : r.resolve p.name = .ok s) :
    (s.isOwningSide = true → s.joinTable = some (defaultJoinTable p.name r.target)) ∧
    (s.isOwningSide = false → ∀ side, s.inverseSide p.name c = .ok (some side) →
      side.joinTable = some (defaultJoinTable p.name r.target).flipped) ∧
    ((defaultJoinTable p.name r.target).joinColumn ≠
        (defaultJoinTable p.name r.target).inverseColumn ↔
      snakeCase p.name ≠ snakeCase r.targetName) := by
  have hresolved := resolved_of_resolve hresolve
  have hname : shortName p.name = p.name :=
    shortName_of_notMem (notMem_of_isEntityName (accepted_of_isValid hvalid).name)
  -- the table goes by short names, so the target may as well be qualified
  have htarget : defaultJoinTable p.name r.targetName = defaultJoinTable p.name r.target := by
    rw [defaultJoinTable, defaultJoinTable, Relation.targetName, shortName_shortName]
  refine ⟨fun howns => ?_, fun howns side hinverse => ?_, ?_⟩
  · rw [hresolved.joinTable, hkind, howns, hnone, ← htarget]
    rfl
  · have hfor := isFor_of_inverseSide hinverse
    rw [hfor.joinTable, hresolved.kind, hkind, howns, hresolved.targetName, ← htarget,
      defaultJoinTable_flipped]
    rfl
  · rw [columns_ne_iff, hname]
    exact Iff.rfl

end Validation

end EntityScaffold
