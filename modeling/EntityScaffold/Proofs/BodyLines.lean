import EntityScaffold.Proofs.Bystanders
import EntityScaffold.Proofs.Text.Trimmed

/-!
# The lines of a constructor

An edit takes the lines out of a constructor that make a collection empty, or adds such a line at
its end.  Its other lines stay, in their order.

* `Method.SameBut` — two methods that differ in extra lines only; `sameBut_dropStatement?`,
  `sameBut_addStatement`.
* `constructor_dropCollectionInit`, `constructor_collectionEnsured` — what an edit leaves of the
  constructor.
-/

set_option autoImplicit false

namespace EntityScaffold

open Text Source Edit

/-! ## Methods that differ in extra lines -/

/-- Two methods that are the same but for lines of their bodies that are said to be extra. -/
structure Source.Method.SameBut (extra : Text → Prop) (m k : Method) : Prop where
  name : k.name = m.name
  head : k.head = m.head
  tail : k.tail = m.tail
  lines : ∀ keep : Text → Bool, (∀ l, extra l → keep l = false) →
    (trimmedLines (k.body.getD [])).filter keep = (trimmedLines (m.body.getD [])).filter keep

section

variable {extra : Text → Prop} {m k l : Method} {property i : Text}

theorem Source.Method.SameBut.refl (m : Method) : m.SameBut extra m :=
  ⟨rfl, rfl, rfl, fun _ _ => rfl⟩

theorem Source.Method.SameBut.trans (h : m.SameBut extra k) (h' : k.SameBut extra l) :
    m.SameBut extra l :=
  ⟨h'.name.trans h.name, h'.head.trans h.head, h'.tail.trans h.tail, fun keep hkeep =>
    (h'.lines keep hkeep).trans (h.lines keep hkeep)⟩

theorem sameBut_dropStatement? {statement : Text} (h : m.dropStatement? statement = some k)
    (hextra : extra statement) : m.SameBut extra k := by
  obtain ⟨body, hbody, rfl⟩ := of_dropStatement? h
  refine ⟨rfl, rfl, rfl, fun keep hkeep => ?_⟩
  rw [hbody, Option.getD_some, Option.getD_some,
    trimmedLines_ofLines fun l hl => notMem_of_mem_lines (List.mem_filter.mp hl).1, trimmedLines]
  induction lines body with
  | nil => rfl
  | cons l ls ih =>
    rw [List.filter_cons]
    split
    · rw [List.map_cons, List.map_cons, List.filter_cons, List.filter_cons]
      split
      · rw [List.filter_cons, List.filter_cons, ih]
      · exact ih
    · rename_i hl
      -- the line is the statement, which nothing that is kept is
      have hl : strip l = statement := by simpa using hl
      rw [ih, List.map_cons, hl, List.filter_cons]
      split
      · rw [List.filter_cons_of_neg (by simp [hkeep statement hextra])]
      · rfl

theorem sameBut_addStatement (hi : IsIndent i) (hplain : Plain property)
    (h : m.addStatement (Render.collectionInit property) i = .ok k)
    (hextra : extra (Render.collectionInit property)) : m.SameBut extra k := by
  obtain ⟨body, hbody, rfl⟩ := of_addStatement h
  refine ⟨rfl, rfl, rfl, fun keep hkeep => ?_⟩
  have hline : '\n' ∉ i ++ Render.collectionInit property :=
    ((bareLine_collectionInit hplain).indented hi).sound.inked.oneLine
  have hassoc : stripEnd body ++ "\n" ++ i ++ Render.collectionInit property ++ "\n" =
      stripEnd body ++ '\n' :: ((i ++ Render.collectionInit property) ++ '\n' :: []) := by
    simp only [List.append_assoc]
    rfl
  have hadded : trimmedLines (i ++ Render.collectionInit property) =
      [Render.collectionInit property] := by
    rw [trimmedLines_of_line hline, strip_collectionInit hi, List.filter_cons_of_pos]
    · rfl
    · exact bne_iff_ne.mpr (collectionInit_ne_nil property)
  rw [hbody, Option.getD_some, Option.getD_some, hassoc, trimmedLines_append, trimmedLines_append,
    trimmedLines_stripEnd, hadded, List.filter_append, List.filter_append,
    List.filter_cons_of_neg (by simp [hkeep _ hextra])]
  exact List.append_nil _

end

/-! ## Edits of the constructor -/

section

variable {extra : Text → Prop} {f g : ClassFile} {m : Method} {property : Text}

theorem constructor_dropCollectionInit (hm : f.constructor? = some m)
    (hextra : extra (Render.collectionInit property)) :
    ∃ k, (dropCollectionInit property f).constructor? = some k ∧ m.SameBut extra k := by
  rw [dropCollectionInit, hm, Option.bind_some]
  cases hk : m.dropStatement? (Render.collectionInit property) with
  | none => exact ⟨m, hm, .refl m⟩
  | some k =>
    have hsame := sameBut_dropStatement? hk hextra
    refine ⟨k, constructor?_replaceMethod hm ?_, hsame⟩
    rw [Method.key, hsame.name]
    exact key_constructor? hm

theorem constructor_collectionEnsured (hi : IsIndent f.indent) (hplain : Plain property)
    (hm : f.constructor? = some m) (hg : collectionEnsured property f = .ok g)
    (hextra : extra (Render.collectionInit property)) :
    ∃ k, g.constructor? = some k ∧ m.SameBut extra k := by
  have hwith : f.withConstructor = f := by
    rw [ClassFile.withConstructor, hm]
    rfl
  rw [collectionEnsured, hwith] at hg
  rcases of_statementEnsured hg with rfl | ⟨m', k, hm', hk, rfl⟩
  · exact ⟨m, hm, .refl m⟩
  · cases hm.symm.trans hm'
    have hsame := sameBut_addStatement hi hplain hk hextra
    refine ⟨k, constructor?_replaceMethod hm ?_, hsame⟩
    rw [Method.key, hsame.name]
    exact key_constructor? hm

end

end EntityScaffold
