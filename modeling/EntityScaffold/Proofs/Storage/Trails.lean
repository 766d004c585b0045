import EntityScaffold.Proofs.Storage.Following

/-!
# What a run leaves behind

While a run is alone, the tree differs from the one that it has begun with only where something is
that it has in hand, and where files are that it has written.  What it has in hand is put where nothing
has been, so once it has nothing in hand only the files are left.

* `Trail` — how the tree and what is in hand hang together with the tree of the beginning.
* `Trail.move` — a move keeps that up.
* `Program.Follows.trail` — a whole program that is run alone.
-/

set_option autoImplicit false

namespace EntityScaffold.Storage

open Text

/-- A file may be written: it is one that may be edited, or a stub of one that has been missed. -/
def Hand.Allowed (R : Rules) (h : Hand) (p : Path) : Prop :=
  (∃ held bytes, R.edits p held bytes) ∨
    ∃ e bytes, R.stubs e p bytes ∧ e ∈ h.missing ∧ p ∈ h.missing

/-- **What a run alone has done to the tree** that it has begun with. -/
structure Trail (R : Rules) (t₀ : Tree) (h : Hand) (t : Tree) : Prop where
  onlyAt : OnlyAt (h.tokens ++ h.puts.map (·.1.place)) t₀ t
  /-- What it has in hand is put where nothing has been. -/
  fresh : ∀ x ∈ h.tokens, t₀.entryAt x = none
  /-- Files stay files. -/
  files : ∀ x bytes, t₀.fileAt x = some bytes → ∃ bytes', t.fileAt x = some bytes'
  /-- What it has missed has not been there. -/
  missing : ∀ p ∈ h.missing, ∀ bytes, t₀.read p ≠ .ok bytes
  puts : ∀ x ∈ h.puts, IsSource x.1 ∧ h.Allowed R x.1
  /-- What it has written is there. -/
  there : ∀ x ∈ h.puts, ∃ bytes, t.fileAt x.1.place = some bytes

section

variable {R : Rules} {t₀ t : Tree} {h h' : Hand} {op : Operation} {w : World}

theorem Trail.start (R : Rules) (t : Tree) : Trail R t {} t where
  onlyAt := .refl t
  fresh _ hx := (List.not_mem_nil hx).elim
  files _ bytes hfile := ⟨bytes, hfile⟩
  missing _ hp := (List.not_mem_nil hp).elim
  puts _ hx := (List.not_mem_nil hx).elim
  there _ hx := (List.not_mem_nil hx).elim

/-- A file that has been there from the beginning is not missed. -/
theorem Trail.notMem_missed (ht : Trail R t₀ h w.tree) {p : Path} {bytes : Bytes}
    (hread : t₀.read p = .ok bytes) : p ∉ op.missed w := by
  obtain ⟨hplace, hfile⟩ := read_iff.mp hread
  obtain ⟨bytes', hfile'⟩ := ht.files _ _ (fileAt_eq_some.mpr hfile)
  have hread' : w.tree.read p = .ok bytes' :=
    read_iff.mpr ⟨ht.onlyAt.firm.locate_eq hplace, fileAt_eq_some.mp hfile'⟩
  intro hmem
  cases op with
  | read q =>
    rw [Operation.missed] at hmem
    split at hmem
    · rename_i hnone
      rw [List.mem_singleton.mp hmem, hnone] at hread'
      cases hread'
    · exact List.not_mem_nil hmem
  | kind q =>
    rw [Operation.missed] at hmem
    split at hmem
    · rename_i hnone
      rw [List.mem_singleton.mp hmem] at hread'
      rw [kind_of_read hread'] at hnone
      cases hnone
    · exact List.not_mem_nil hmem
  | _ => exact List.not_mem_nil hmem

/-- What a run takes in hand is put where nothing has been from the beginning. -/
theorem Trail.fresh_move (ht : Trail R t₀ h w.tree) (hm : Move R h op w h')
    (hh : h.Holds R w.tree) {x : Place} (hx : x ∈ h'.tokens) : t₀.entryAt x = none := by
  rcases (hm.change hh).gained x hx with htoken | hnone
  · exact ht.fresh x htoken
  by_cases hmem : x ∈ h.tokens ++ h.puts.map (·.1.place)
  · rcases List.mem_append.mp hmem with htoken | hput
    · exact ht.fresh x htoken
    · obtain ⟨put, hmem', rfl⟩ := List.mem_map.mp hput
      exact absurd rfl ((hm.holds hh).ne_of_mem_tokens hx (ht.puts put hmem').1)
  · rcases ht.onlyAt.others x hmem with heq | ⟨hnone₀, -⟩
    · exact heq ▸ hnone
    · exact hnone₀

/-- Files stay files, but for those that the run has in hand. -/
theorem Move.fileAt (hm : Move R h op w h') (hh : h.Holds R w.tree) {x : Place} {bytes : Bytes}
    (hx : x ∉ h.tokens) (hfile : w.tree.fileAt x = some bytes) :
    ∃ bytes', (op.run w).2.tree.fileAt x = some bytes' := by
  obtain ⟨⟨qs, hchange, hqs⟩, -, -⟩ := hm.change hh
  by_cases hmem : x ∈ qs
  · rcases hqs x hmem with htoken | ⟨-, hnone⟩ | ⟨p, t, rfl, hp⟩
    · exact absurd htoken hx
    · rw [fileAt_eq_some, hnone] at hfile
      cases hfile
    · obtain ⟨written, -, rfl, hread⟩ := hm.of_saved hh hp
      exact ⟨written, fileAt_of_read hread⟩
  · exact ⟨bytes, (hchange.fileAt_eq hmem).trans hfile⟩

/-- **A move keeps up what a run alone has done.** -/
theorem Trail.move (ht : Trail R t₀ h w.tree) (hm : Move R h op w h') (hh : h.Holds R w.tree) :
    Trail R t₀ h' (op.run w).2.tree := by
  obtain ⟨⟨qs, hchange, hqs⟩, -, hlost⟩ := hm.change hh
  have hputs := hm.puts_eq hh
  have hsaved : ∀ p t, op.saved w = some (p, t) → p.place ∈ h'.puts.map (·.1.place) := by
    intro p t hp
    rw [hputs, hp]
    simp
  refine ⟨⟨(ht.onlyAt.trans hchange).firm, fun x hx => ?_⟩, fun x hx => ht.fresh_move hm hh hx,
    fun x bytes hfile => ?_, fun p hp bytes hread => ?_, fun x hx => ?_, fun x hx => ?_⟩
  · rw [List.mem_append, not_or] at hx
    obtain ⟨hx, hx'⟩ := hx
    by_cases htoken : x ∈ h.tokens
    · -- it has been given away
      left
      rw [ht.fresh x htoken]
      exact (hlost x htoken).resolve_left hx
    · have hput : x ∉ h.puts.map (·.1.place) := by
        intro hmem
        rw [hputs, List.map_append] at hx'
        exact hx' (List.mem_append_left _ hmem)
      refine (ht.onlyAt.trans hchange).others x fun hmem => ?_
      rcases List.mem_append.mp hmem with hmem | hmem
      · rcases List.mem_append.mp hmem with hmem | hmem
        · exact htoken hmem
        · exact hput hmem
      · rcases hqs x hmem with hmem | ⟨hmem, -⟩ | ⟨p, t, rfl, hp⟩
        · exact htoken hmem
        · exact hx hmem
        · exact hx' (hsaved p t hp)
  · obtain ⟨bytes', hfile'⟩ := ht.files x bytes hfile
    refine hm.fileAt hh (fun htoken => ?_) hfile'
    rw [fileAt_eq_some, ht.fresh x htoken] at hfile
    cases hfile
  · rcases hm.of_mem_missing hp with hp | hp
    · exact ht.missing p hp bytes hread
    · exact ht.notMem_missed hread hp
  · rw [hputs] at hx
    rcases List.mem_append.mp hx with hx | hx
    · obtain ⟨hsource, hallowed⟩ := ht.puts x hx
      refine ⟨hsource, hallowed.imp_right ?_⟩
      rintro ⟨e, bytes, hstub, he, hp⟩
      exact ⟨e, bytes, hstub, hm.missing_subset he, hm.missing_subset hp⟩
    · obtain ⟨bytes, hmay, -⟩ := hm.of_saved hh (Option.mem_toList.mp hx)
      refine ⟨hmay.isSource, ?_⟩
      rcases hmay with ⟨held, hedit, -⟩ | ⟨e, hstub, he, hp⟩
      · exact .inl ⟨held, bytes, hedit⟩
      · exact .inr ⟨e, bytes, hstub, hm.missing_subset he, hm.missing_subset hp⟩
  · rw [hputs] at hx
    rcases List.mem_append.mp hx with hx | hx
    · obtain ⟨bytes, hfile⟩ := ht.there x hx
      exact hm.fileAt hh (fun htoken => hh.ne_of_mem_tokens htoken (ht.puts x hx).1 rfl) hfile
    · obtain ⟨bytes, -, htree, hread⟩ := hm.of_saved hh (Option.mem_toList.mp hx)
      exact ⟨bytes, htree ▸ fileAt_of_read hread⟩

end

/-! ## What tasks save -/

section

variable {α β : Type}

theorem Program.saves_bind (p : Program α) (f : α → Program β) (w : World) :
    (p.bind f).saves w = p.saves w ++ (f (p.run w).1).saves (p.run w).2 := by
  induction p generalizing w with
  | done a => rfl
  | step op next ih => simp only [Program.bind, Program.saves, Program.run, ih, List.append_assoc]

end

namespace Task

variable {σ ρ α β : Type} {s s' : σ} {w w' : World} {a : α} {b : β} {ps : List (Path × Tree)}

/-- The task succeeds, and saves these files. -/
structure Saves (t : Task σ α) (s : σ) (w : World) (a : α) (s' : σ) (w' : World)
    (ps : List (Path × Tree)) : Prop where
  yields : Yields t s w a s' w'
  saves : (t.program s).saves w = ps

theorem Saves.of_bind {t : Task σ α} {k : α → Task σ β} (h : Saves (t >>= k) s w b s' w' ps) :
    ∃ a s₁ w₁ qs rs, Saves t s w a s₁ w₁ qs ∧ Saves (k a) s₁ w₁ b s' w' rs ∧ ps = qs ++ rs := by
  obtain ⟨a, s₁, w₁, hyields, hrest⟩ := Yields.of_bind h.yields
  refine ⟨a, s₁, w₁, _, _, ⟨hyields, rfl⟩, ⟨hrest, rfl⟩, ?_⟩
  rw [← h.saves, program_bind, Program.saves_bind, hyields]

theorem Saves.of_settle_bind {r : Except Failure α} {k : α → Task σ β}
    (h : Saves (settle r >>= k) s w b s' w' ps) : ∃ a, r = .ok a ∧ Saves (k a) s w b s' w' ps := by
  obtain ⟨a, rfl, hyields⟩ := Yields.of_settle_bind h.yields
  exact ⟨a, rfl, hyields, h.saves⟩

theorem Saves.of_record_bind {level : Log.Level} {topic : Log.Topic} {message : Text}
    {k : Unit → Task σ β} (h : Saves (record level topic message >>= k) s w b s' w' ps) :
    ∃ w₁, w₁.tree = w.tree ∧ Saves (k ()) s w₁ b s' w' ps :=
  ⟨((Operation.record ⟨level, topic, message⟩).run w).2, rfl, h.yields, h.saves⟩

theorem Saves.of_pure {c : α} (h : Saves (pure c : Task σ α) s w a s' w' ps) :
    a = c ∧ s' = s ∧ w' = w ∧ ps = [] := by
  obtain ⟨rfl, rfl, rfl⟩ := Yields.of_pure h.yields
  exact ⟨rfl, rfl, rfl, h.saves.symm⟩

end Task

end EntityScaffold.Storage
