import EntityScaffold.Value.Yaml.Document

/-!
# What is known of a document

The value of a document is found by looking into its collections one level deeper again and again,
until the root is known in full or no fuel is left.  What is known in full does not change any more, so
the value is what is known at one level, which the number of collections gives.

* `Document.levels`, `Document.known` — what is known of the collections, and of the entries of maps, so
  many levels deep.
* `Document.itemValue_stable` — what is known in full stays as it is.
* `Document.value_eq`, `Document.value_of_root?` — the value of a document, and of one that is a map.
-/

set_option autoImplicit false

namespace EntityScaffold

open Text

namespace Entries

variable {α β : Type}

theorem find?_map (f : α → β) (es : Entries α) (key : Atom) :
    find? (es.map fun e => (e.1, f e.2)) key = (find? es key).map f := by
  induction es with
  | nil => rfl
  | cons e es ih =>
    cases hsame : e.1.same key with
    | true => simp [find?, hsame]
    | false =>
      rw [List.map_cons, find?, find?, List.find?_cons_of_neg (by simp [hsame]),
        List.find?_cons_of_neg (by simp [hsame])]
      exact ih

/-- A key is found in an entry. -/
theorem exists_of_find? {es : Entries α} {key : Atom} {a : α} (h : find? es key = some a) :
    ∃ e ∈ es, e.2 = a := by
  rw [find?, Option.map_eq_some_iff] at h
  obtain ⟨e, he, rfl⟩ := h
  exact ⟨e, List.mem_of_find?_eq_some he, rfl⟩

end Entries

namespace Yaml

/-- The members of a collection; those of a set are no members of their own. -/
def Part.items : Part → List Item
  | .list items => items
  | .set _ => []
  | .map es => es.map (·.2)

namespace Document

/-- What is known of the collections after looking so many levels deep. -/
def levels (d : Document) : Nat → Array Partial
  | 0 => d.parts.map emptied
  | k + 1 => d.parts.map (partValue (d.levels k))

/-- The entries of maps as far as they are known. -/
def known (d : Document) (k : Nat) (es : Entries Item) : Entries Value :=
  es.map fun e => (e.1, (itemValue (d.levels k) e.2).1)

section

variable {d : Document}

theorem itemValue_emptied {n : Nat} {p : Part} (h : d.parts[n]? = some p) :
    itemValue (d.levels 0) (.part n) = emptied p := by
  rw [itemValue, levels, Array.getD_eq_getD_getElem?, Array.getElem?_map, h]
  rfl

/-- A collection one level deeper. -/
theorem itemValue_part {n : Nat} {p : Part} (h : d.parts[n]? = some p) (k : Nat) :
    itemValue (d.levels (k + 1)) (.part n) = partValue (d.levels k) p := by
  rw [itemValue, levels, Array.getD_eq_getD_getElem?, Array.getElem?_map, h]
  rfl

/-- A collection that is not there is nothing. -/
theorem itemValue_missing {n : Nat} (h : d.parts[n]? = none) (k : Nat) :
    itemValue (d.levels k) (.part n) = (.null, true) := by
  cases k <;>
    · rw [itemValue, levels, Array.getD_eq_getD_getElem?, Array.getElem?_map, h]
      rfl

/-- The entries of a map one level deeper. -/
theorem partValue_map (k : Nat) (es : Entries Item) :
    (partValue (d.levels k) (.map es)).1 = .map (d.known k es) := by
  rw [partValue, List.map_map]
  rfl

/-- The elements of a list one level deeper. -/
theorem partValue_list (known : Array Partial) (items : List Item) :
    (partValue known (.list items)).1 = .list (items.map fun i => (itemValue known i).1) := by
  rw [partValue, List.map_map]
  rfl

/-- A collection that is known in full has no member that is not. -/
theorem isFull_of_mem {known : Array Partial} {p : Part} (h : (partValue known p).2 = true) :
    ∀ i ∈ p.items, (itemValue known i).2 = true := by
  cases p with
  | list items =>
    intro i hi
    rw [partValue, List.all_eq_true] at h
    exact h _ (List.mem_map_of_mem hi)
  | set members =>
    intro i hi
    cases hi
  | map es =>
    intro i hi
    obtain ⟨e, he, rfl⟩ := List.mem_map.mp hi
    rw [partValue, List.all_eq_true] at h
    exact h _ (List.mem_map_of_mem he)

theorem partValue_congr {known known' : Array Partial} {p : Part}
    (h : ∀ i ∈ p.items, itemValue known' i = itemValue known i) :
    partValue known' p = partValue known p := by
  cases p with
  | list items =>
    have hitems : items.map (itemValue known') = items.map (itemValue known) :=
      List.map_congr_left h
    rw [partValue, partValue, hitems]
  | set members => rfl
  | map es =>
    have hentries : (es.map fun e => (e.1, itemValue known' e.2)) =
        es.map fun e => (e.1, itemValue known e.2) :=
      List.map_congr_left fun e he => by rw [h e.2 (List.mem_map_of_mem he)]
    show (_, _) = (_, _)
    rw [hentries]

/-- What is known in full stays as it is if that holds of the collections. -/
theorem itemValue_congr {known known' : Array Partial} {i : Item}
    (hparts : ∀ n, (itemValue known (.part n)).2 = true →
      itemValue known' (.part n) = itemValue known (.part n))
    (hfull : (itemValue known i).2 = true) : itemValue known' i = itemValue known i := by
  induction i with
  | value v => rfl
  | part n => exact hparts n hfull
  | pair first second ihf ihs =>
    rw [itemValue, Bool.and_eq_true] at hfull
    rw [itemValue, ihf hfull.1, ihs hfull.2]
    rfl

/-- **What is known in full stays as it is.** -/
theorem itemValue_stable {k : Nat} {i : Item} (hfull : (itemValue (d.levels k) i).2 = true) :
    itemValue (d.levels (k + 1)) i = itemValue (d.levels k) i := by
  induction k generalizing i with
  | zero =>
    refine itemValue_congr (fun n hn => ?_) hfull
    cases hp : d.parts[n]? with
    | none => rw [itemValue_missing hp, itemValue_missing hp]
    | some p =>
      -- of the collections only sets are known in full from the beginning
      rw [itemValue_emptied hp] at hn ⊢
      rw [itemValue_part hp]
      cases p with
      | set members => rfl
      | list items => cases hn
      | map es => cases hn
  | succ k ih =>
    refine itemValue_congr (fun n hn => ?_) hfull
    cases hp : d.parts[n]? with
    | none => rw [itemValue_missing hp, itemValue_missing hp]
    | some p =>
      rw [itemValue_part hp] at hn ⊢
      rw [itemValue_part hp]
      exact partValue_congr fun i hi => ih (isFull_of_mem hn i hi)

theorem itemValue_stable_add {k : Nat} {i : Item} (hfull : (itemValue (d.levels k) i).2 = true)
    (m : Nat) : itemValue (d.levels (k + m)) i = itemValue (d.levels k) i := by
  induction m with
  | zero => rfl
  | succ m ih => rw [← Nat.add_assoc, itemValue_stable (by rw [ih, hfull]), ih]

/-- Looking deeper comes to what is known after all levels. -/
theorem deepen_eq (fuel k : Nat) :
    d.deepen fuel (d.levels k) = (itemValue (d.levels (k + fuel)) d.root).1 := by
  induction fuel generalizing k with
  | zero => rfl
  | succ fuel ih =>
    rw [deepen]
    cases hfull : (itemValue (d.levels k) d.root).2 with
    | false =>
      have hnext : d.deepen fuel (d.levels (k + 1)) = _ := ih (k + 1)
      simp only [hfull, Bool.false_eq_true, if_false]
      rw [Nat.add_comm fuel 1, ← Nat.add_assoc]
      exact hnext
    | true =>
      simp only [hfull, if_true]
      rw [itemValue_stable_add hfull]

/-- **The value of a document** is what is known of it at one level. -/
theorem value_eq (d : Document) :
    d.value = (itemValue (d.levels (d.parts.size + leastDepth)) d.root).1 := by
  have h := deepen_eq (d := d) (d.parts.size + leastDepth) 0
  rw [Nat.zero_add] at h
  exact h

theorem find?_known (k : Nat) (es : Entries Item) (key : Atom) :
    Entries.find? (d.known k es) key = (es.find? key).map fun i => (itemValue (d.levels k) i).1 :=
  Entries.find?_map (fun i => (itemValue (d.levels k) i).1) es key

theorem keys_known (k : Nat) (es : Entries Item) : (d.known k es).map (·.1) = es.map (·.1) := by
  rw [known, List.map_map]
  rfl

theorem root?_eq_some_iff {n : Nat} {es : Entries Item} :
    d.root? = some (n, es) ↔ d.root = .part n ∧ d.parts[n]? = some (.map es) := by
  constructor
  · intro h
    rw [root?] at h
    split at h
    · rename_i m hm
      split at h
      · rename_i es' hes'
        cases h
        exact ⟨hm, hes'⟩
      · cases h
    · cases h
  · rintro ⟨hroot, hes⟩
    rw [root?, hroot]
    dsimp only
    rw [hes]

/-- The value of a document that is a map. -/
theorem value_of_root? {n : Nat} {es : Entries Item} (h : d.root? = some (n, es)) :
    d.value = .map (d.known (d.parts.size + 7) es) := by
  obtain ⟨hroot, hes⟩ := root?_eq_some_iff.mp h
  rw [value_eq, hroot, leastDepth]
  show (itemValue (d.levels (d.parts.size + 7 + 1)) (.part n)).1 = _
  rw [itemValue_part hes, partValue_map]

end

end Document

end Yaml

end EntityScaffold
