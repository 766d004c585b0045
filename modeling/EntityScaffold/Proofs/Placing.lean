import EntityScaffold.Proofs.Edits

/-!
# Methods that are placed

* `put_placeMethod` — a method takes the place of the one with its name.
* `nodup_placeMethods`, `mem_placeMethods` — the methods of a class once methods have been placed
  and stale ones removed.
* `constructor?_eq_some_iff` — which constructor is found.
-/

set_option autoImplicit false

namespace EntityScaffold

open Text Source Edit

variable {f : ClassFile}

theorem methods_placeProperty (name : Text) (p : Property) :
    (placeProperty name p f).methods = f.methods := by
  rw [placeProperty]
  split
  · exact f.methods_replaceProperty name p
  · exact f.methods_insertProperty p

/-- **A method takes the place of the one with its name.** -/
theorem put_placeMethod (m : Method) : Put Method.key m f.methods (placeMethod f m).methods := by
  rw [placeMethod]
  split
  · rename_i h
    exact f.put_replaceMethod rfl (f.findMethod?_isSome_iff.mp h)
  · rename_i h
    rw [ClassFile.findMethod?_isSome_iff] at h
    exact f.put_insertMethod fun k hk heq => h ⟨k, hk, heq⟩

/-- What is left when methods have been removed. -/
theorem methods_removed (names : List Text) : (names.foldl ClassFile.removeMethod f).methods =
    f.methods.filter fun m => !(names.map lower).contains m.key := by
  induction names generalizing f with
  | nil => simp
  | cons name names ih =>
    rw [List.foldl_cons, ih, f.methods_removeMethod, List.filter_filter]
    refine List.filter_congr fun m _ => ?_
    rw [List.map_cons, List.contains_cons, Bool.not_or, Bool.and_comm, bne]

/-- Methods placed one after another keep names distinct; with them there are those of other
names. -/
theorem mem_placed {ms : List Method} (hn : (f.methods.map Method.key).Nodup)
    (hms : (ms.map Method.key).Nodup) :
    ((ms.foldl placeMethod f).methods.map Method.key).Nodup ∧
      ∀ m, m ∈ (ms.foldl placeMethod f).methods ↔
        m ∈ ms ∨ m ∈ f.methods ∧ m.key ∉ ms.map Method.key := by
  induction ms generalizing f with
  | nil => exact ⟨hn, fun m => by simp⟩
  | cons k ms ih =>
    obtain ⟨hk, hrest⟩ := List.nodup_cons.mp hms
    have hput := put_placeMethod (f := f) k
    obtain ⟨hnodup, hmem⟩ := ih (hput.nodup hn) hrest
    refine ⟨hnodup, fun m => ?_⟩
    rw [List.foldl_cons, hmem, hput.mem_iff hn, List.map_cons, List.mem_cons, List.mem_cons]
    constructor
    · rintro (hm | ⟨rfl | ⟨hm, hne⟩, hnot⟩)
      · exact .inl (.inr hm)
      · exact .inl (.inl rfl)
      · exact .inr ⟨hm, not_or.mpr ⟨hne, hnot⟩⟩
    · rintro ((rfl | hm) | ⟨hm, hnot⟩)
      · exact .inr ⟨.inl rfl, hk⟩
      · exact .inl hm
      · exact .inr ⟨.inr ⟨hm, (not_or.mp hnot).1⟩, (not_or.mp hnot).2⟩

section

variable {ms : List Method} {stale : List Text}

theorem nodup_placeMethods (hn : (f.methods.map Method.key).Nodup)
    (hms : (ms.map Method.key).Nodup) :
    ((placeMethods ms stale f).methods.map Method.key).Nodup := by
  refine (mem_placed ?_ hms).1
  rw [methods_removed]
  exact (List.filter_sublist.map _).nodup hn

/-- **The methods are those placed, and those that were there under other names and are not
stale.** -/
theorem mem_placeMethods (hn : (f.methods.map Method.key).Nodup)
    (hms : (ms.map Method.key).Nodup) {m : Method} :
    m ∈ (placeMethods ms stale f).methods ↔
      m ∈ ms ∨ m ∈ f.methods ∧ m.key ∉ ms.map Method.key ∧ m.key ∉ stale.map lower := by
  have hremoved : (((stale.filter fun name => !ms.any (ClassFile.isMethodNamed name)).foldl
      ClassFile.removeMethod f).methods.map Method.key).Nodup := by
    rw [methods_removed]
    exact (List.filter_sublist.map _).nodup hn
  rw [placeMethods, (mem_placed hremoved hms).2, methods_removed, List.mem_filter]
  refine or_congr_right ?_
  rw [and_assoc, and_comm (b := m.key ∉ ms.map Method.key)]
  refine and_congr_right fun hm => and_congr_right fun hnot => ?_
  -- a stale name that is not removed is that of a method placed
  have hkept : ∀ name ∈ stale, lower name = m.key →
      ms.any (ClassFile.isMethodNamed name) = false := by
    intro name _ hname
    rw [List.any_eq_false]
    intro k hk hnamed
    rw [ClassFile.isMethodNamed_iff, hname] at hnamed
    exact hnot (hnamed ▸ List.mem_map_of_mem hk)
  simp only [Bool.not_eq_true', List.contains_eq_mem, decide_eq_false_iff_not, List.mem_map,
    List.mem_filter, not_exists, not_and]
  constructor
  · intro h name hname heq
    exact h name ⟨hname, hkept name hname heq⟩ heq
  · intro h name hname heq
    exact h name hname.1 heq

theorem isConstructor_iff {m : Method} : m.isConstructor = true ↔ m.key = constructorName :=
  beq_iff_eq

/-- **The constructor that is found is the only one.** -/
theorem constructor?_eq_some_iff (hn : (f.methods.map Method.key).Nodup) {m : Method} :
    f.constructor? = some m ↔ m ∈ f.methods ∧ m.isConstructor = true := by
  rw [isConstructor_iff]
  constructor
  · intro h
    have hnamed := List.find?_some h
    rw [ClassFile.isMethodNamed_iff, lower_constructorName] at hnamed
    exact ⟨List.mem_of_find?_eq_some h, hnamed⟩
  · rintro ⟨hm, hkey⟩
    have hsome : f.constructor?.isSome = true :=
      f.findMethod?_isSome_iff.mpr ⟨m, hm, hkey.trans lower_constructorName.symm⟩
    obtain ⟨k, hk⟩ := Option.isSome_iff_exists.mp hsome
    have hnamed := List.find?_some hk
    rw [ClassFile.isMethodNamed_iff, lower_constructorName] at hnamed
    rw [hk, List.inj_on_of_nodup_map hn (List.mem_of_find?_eq_some hk) hm (hnamed.trans hkey.symm)]

/-- There is no other constructor. -/
theorem filter_isConstructor (hn : (f.methods.map Method.key).Nodup) {m : Method}
    (hm : m ∈ f.methods) (hc : m.isConstructor = true) :
    f.methods.filter Method.isConstructor = [m] := by
  obtain ⟨as, bs, hsplit⟩ := List.append_of_mem hm
  rw [hsplit] at hn ⊢
  have hother : ∀ k ∈ as ++ bs, ¬k.isConstructor = true := fun k hk hck =>
    (nodup_keys_middle.mp hn).1 k hk
      ((isConstructor_iff.mp hck).trans (isConstructor_iff.mp hc).symm)
  rw [List.filter_append, List.filter_cons_of_pos hc,
    List.filter_eq_nil_iff.mpr fun k hk => hother k (List.mem_append_left _ hk),
    List.filter_eq_nil_iff.mpr fun k hk => hother k (List.mem_append_right _ hk), List.nil_append]

end

end EntityScaffold
