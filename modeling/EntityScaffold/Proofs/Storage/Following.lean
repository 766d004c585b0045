import EntityScaffold.Proofs.Storage.Hands

/-!
# Programs that keep to rules

A program keeps to rules if each of its operations is a move that the rules allow, whatever trees it
meets: others may change the tree between its operations, as long as what the run has in hand is
there.  What it has in hand goes on from move to move beside the program.

* `Program.Follows` — the program keeps to rules, and what holds in the end; one lemma for each way of
  putting programs and tasks together.
* `Program.saves` — the files that a program writes when it is run alone.
* `Program.Follows.run` — what holds of a program that is run alone.
* `Keeps.follows` — a task that changes no files keeps to all rules.
-/

set_option autoImplicit false

namespace EntityScaffold.Storage

open Text

variable {σ τ ρ α β : Type}

/-- Nothing in hand has changed, though the tree may have. -/
def Hand.Unmoved (h h' : Hand) : Prop := ∃ now, h' = { h with now := now }

theorem Hand.Unmoved.refl (h : Hand) : h.Unmoved h := ⟨h.now, rfl⟩

theorem Hand.Unmoved.trans {h h' h'' : Hand} (H : h.Unmoved h') (H' : h'.Unmoved h'') :
    h.Unmoved h'' := by
  obtain ⟨now, rfl⟩ := H
  obtain ⟨now', rfl⟩ := H'
  exact ⟨now', rfl⟩

/-! ## Programs -/

/-- The program keeps to the rules, beginning with `h` in hand: whatever trees it meets in which that
is there, its operations are moves, and `post` holds of its result and of what is in hand then. -/
def Program.Follows (R : Rules) (post : α → Hand → Prop) : Program α → Hand → Prop
  | .done a, h => post a h
  | .step op next, h => ∀ w : World, h.Holds R w.tree →
      ∃ h', Move R h op w h' ∧ (next (op.run w).1).Follows R post h'

/-- The source files that a program writes when it is run alone, each with the tree that this
leaves. -/
def Program.saves : Program α → World → List (Path × Tree)
  | .done _, _ => []
  | .step op next, w => (op.saved w).toList ++ (next (op.run w).1).saves (op.run w).2

section

variable {R : Rules} {h : Hand} {p : Program α} {w : World}

theorem Program.Follows.bind {f : α → Program β} {mid : α → Hand → Prop} {post : β → Hand → Prop}
    (hp : p.Follows R mid h) (hf : ∀ a h', mid a h' → (f a).Follows R post h') :
    (p.bind f).Follows R post h := by
  induction p generalizing h with
  | done a => exact hf a h hp
  | step op next ih =>
    intro w hh
    obtain ⟨h', hmove, hnext⟩ := hp w hh
    exact ⟨h', hmove, ih _ hnext⟩

theorem Program.Follows.imp {post post' : α → Hand → Prop} (hp : p.Follows R post h)
    (himp : ∀ a h', post a h' → post' a h') : p.Follows R post' h := by
  induction p generalizing h with
  | done a => exact himp a h hp
  | step op next ih =>
    intro w hh
    obtain ⟨h', hmove, hnext⟩ := hp w hh
    exact ⟨h', hmove, ih _ hnext⟩

/-- **Run alone**, a program that keeps to rules has in hand in the end what is there, and has written
what has been put down; what every move preserves holds then. -/
theorem Program.Follows.run {inv : Hand → Tree → Prop} {post : α → Hand → Prop}
    (hp : p.Follows R post h) (hh : h.Holds R w.tree) (hinv : inv h w.tree)
    (hmove : ∀ h op w h', Move R h op w h' → h.Holds R w.tree → inv h w.tree →
      inv h' (op.run w).2.tree) :
    ∃ h', post (p.run w).1 h' ∧ h'.Holds R (p.run w).2.tree ∧ inv h' (p.run w).2.tree ∧
      h'.puts = h.puts ++ p.saves w := by
  induction p generalizing h w with
  | done a => exact ⟨h, hp, hh, hinv, (List.append_nil _).symm⟩
  | step op next ih =>
    obtain ⟨h₁, hstep, hnext⟩ := hp w hh
    obtain ⟨h', hpost, hh', hinv', hputs⟩ :=
      ih _ hnext (hstep.holds hh) (hmove h op w h₁ hstep hh hinv)
    refine ⟨h', hpost, hh', hinv', ?_⟩
    rw [hputs, hstep.puts_eq hh, List.append_assoc]
    rfl

/-- An operation on no files is a move that changes nothing in hand. -/
theorem Move.of_within {op : Operation} (hop : op.Within fun _ => False) (h : Hand) (w : World) :
    ∃ h', Move R h op w h' ∧ h.Unmoved h' := by
  cases op with
  | makeDir p =>
    cases hr : w.tree.makeDir p with
    | ok t => exact ⟨_, .makeDir hr, none, rfl⟩
    | error cause => exact ⟨h, .refuse ⟨cause, hr⟩, .refl h⟩
  | create | write | remove => exact hop.elim
  | rename => exact hop.1.elim
  | _ => exact ⟨h, .look trivial, .refl h⟩

/-- A program that changes no files keeps to all rules. -/
theorem Program.Ensures.follows {post : α → Prop} (hp : p.Ensures (fun _ => False) post) :
    p.Follows R (fun a h' => post a ∧ h.Unmoved h') h := by
  induction p generalizing h with
  | done a => exact ⟨hp, .refl h⟩
  | step op next ih =>
    intro w _
    obtain ⟨h₁, hmove, hunmoved⟩ := Move.of_within hp.1 h w
    refine ⟨h₁, hmove, (ih _ (hp.2 w)).imp fun a h' hpost => ⟨hpost.1, hunmoved.trans hpost.2⟩⟩

end

/-- An operation that may change the tree, and a program that goes on with its answer. -/
theorem Move.follows_change {R : Rules} {h : Hand} {op : Operation} {w : World} {p : Path}
    {r : Except OsCause Tree} {k : Except OsError Unit → Program β} {post : β → Hand → Prop}
    (hok : ∀ t, r = .ok t → ∃ h', Move R h op w h' ∧ (k (.ok ())).Follows R post h')
    (herror : ∀ cause, r = .error cause →
      ∃ h', Move R h op w h' ∧ (k (.error (failAt p cause))).Follows R post h') :
    ∃ h', Move R h op w h' ∧ (k (w.change p r).1).Follows R post h' := by
  cases r with
  | ok t => exact hok t rfl
  | error cause => exact herror cause rfl

/-! ## Tasks -/

namespace Task

/-- The task keeps to the rules, beginning with a state and with `h` in hand. -/
def Follows (R : Rules) (t : Task σ α) (s : σ) (h : Hand)
    (post : Except Failure α → σ → Hand → Prop) : Prop :=
  (t.program s).Follows R (fun r h' => post r.1 r.2 h') h

section

variable {R : Rules} {h : Hand} {s : σ} {t : Task σ α} {post : Except Failure α → σ → Hand → Prop}

theorem Follows.imp {post' : Except Failure α → σ → Hand → Prop} (ht : Follows R t s h post)
    (himp : ∀ r s' h', post r s' h' → post' r s' h') : Follows R t s h post' :=
  Program.Follows.imp ht fun r h' => himp r.1 r.2 h'

theorem Follows.pure {a : α} (hpost : post (.ok a) s h) : Follows R (pure a) s h post := hpost

theorem Follows.throw {e : Failure} (hpost : post (.error e) s h) :
    Follows R (throw e : Task σ α) s h post := hpost

/-- A task, and one that goes on with its result; a failure goes through. -/
theorem Follows.bind {k : α → Task σ β} {mid : Except Failure α → σ → Hand → Prop}
    {post : Except Failure β → σ → Hand → Prop} (ht : Follows R t s h mid)
    (hok : ∀ a s' h', mid (.ok a) s' h' → Follows R (k a) s' h' post)
    (herror : ∀ e s' h', mid (.error e) s' h' → post (.error e) s' h') :
    Follows R (t >>= k) s h post := by
  rw [Follows, program_bind]
  refine Program.Follows.bind ht fun r h' hmid => ?_
  obtain ⟨r, s'⟩ := r
  cases r with
  | ok a => exact hok a s' h' hmid
  | error e => exact herror e s' h' hmid

/-- An operation, and a task that goes on with its answer. -/
theorem Follows.perform_bind {op : Operation} {k : op.Answer → Task σ β}
    {post : Except Failure β → σ → Hand → Prop}
    (hop : ∀ w : World, h.Holds R w.tree →
      ∃ h', Move R h op w h' ∧ Follows R (k (op.run w).1) s h' post) :
    Follows R (perform op >>= k) s h post := hop

theorem Follows.get_bind {k : σ → Task σ β} {post : Except Failure β → σ → Hand → Prop}
    (hk : Follows R (k s) s h post) : Follows R (get >>= k) s h post := hk

theorem Follows.modify_bind {f : σ → σ} {k : PUnit → Task σ β}
    {post : Except Failure β → σ → Hand → Prop} (hk : Follows R (k ⟨⟩) (f s) h post) :
    Follows R (modify f >>= k) s h post := hk

theorem Follows.modify {f : σ → σ} {post : Except Failure PUnit → σ → Hand → Prop}
    (hpost : post (.ok ⟨⟩) (f s) h) : Follows R (modify f : Task σ PUnit) s h post := hpost

theorem Follows.orOsError {r : Except OsError α} (hok : ∀ a, r = .ok a → post (.ok a) s h)
    (herror : ∀ e, r = .error e → post (.error (.os e)) s h) :
    Follows R (orOsError r) s h post := by
  cases r with
  | ok a => exact hok a rfl
  | error e => exact herror e rfl

theorem Follows.settle {r : Except Failure α} (hpost : post r s h) :
    Follows R (settle r) s h post := by
  cases r <;> exact hpost

theorem Follows.record_bind {level : Log.Level} {topic : Log.Topic} {message : Text}
    {k : Unit → Task σ β} {post : Except Failure β → σ → Hand → Prop}
    (hk : Follows R (k ()) s h post) : Follows R (record level topic message >>= k) s h post :=
  fun _ _ => ⟨h, .look trivial, hk⟩

theorem Follows.record {level : Log.Level} {topic : Log.Topic} {message : Text}
    {post : Except Failure Unit → σ → Hand → Prop} (hpost : post (.ok ()) s h) :
    Follows R (record level topic message) s h post :=
  fun _ _ => ⟨h, .look trivial, hpost⟩

/-- An attempt, and a task that goes on with what it has come to. -/
theorem Follows.attempt_bind {k : Except Failure α → Task σ β}
    {mid : Except Failure α → σ → Hand → Prop} {post : Except Failure β → σ → Hand → Prop}
    (ht : Follows R t s h mid) (hk : ∀ r s' h', mid r s' h' → Follows R (k r) s' h' post) :
    Follows R (attempt t >>= k) s h post := by
  have hattempt : Follows R (attempt t) s h fun r s' h' => ∃ r', r = .ok r' ∧ mid r' s' h' :=
    Program.Follows.bind ht fun r h' hmid => ⟨r.1, rfl, hmid⟩
  refine hattempt.bind ?_ ?_
  · rintro _ s' h' ⟨r, hr, hmid⟩
    cases hr
    exact hk _ s' h' hmid
  · rintro _ s' h' ⟨r, hr, -⟩
    cases hr

theorem Follows.andFinally {last : Task σ Unit} {mid : Except Failure α → σ → Hand → Prop}
    (ht : Follows R t s h mid)
    (hlast : ∀ r s' h', mid r s' h' → Follows R last s' h' fun r' s'' h'' => match r' with
      | .ok () => post r s'' h''
      | .error e => post (.error e) s'' h'') :
    Follows R (andFinally t last) s h post :=
  ht.attempt_bind fun r s' h' hmid => (hlast r s' h' hmid).bind (fun _ _ _ hpost => .settle hpost)
    fun _ _ _ hpost => hpost

/-- A task on a part of the state, and one that goes on with its result. -/
theorem Follows.onPart_bind {get : σ → τ} {set : τ → σ → σ} {t : Task τ α} {k : α → Task σ β}
    {mid : Except Failure α → τ → Hand → Prop} {post : Except Failure β → σ → Hand → Prop}
    (ht : Follows R t (get s) h mid)
    (hok : ∀ a part h', mid (.ok a) part h' → Follows R (k a) (set part s) h' post)
    (herror : ∀ e part h', mid (.error e) part h' → post (.error e) (set part s) h') :
    Follows R (onPart get set t >>= k) s h post := by
  have hpart : Follows R (onPart get set t) s h fun r s' h' =>
      ∃ part, s' = set part s ∧ mid r part h' :=
    Program.Follows.bind ht fun r h' hmid => ⟨r.2, rfl, hmid⟩
  refine hpart.bind ?_ ?_
  · rintro a _ h' ⟨part, rfl, hmid⟩
    exact hok a part h' hmid
  · rintro e _ h' ⟨part, rfl, hmid⟩
    exact herror e part h' hmid

theorem Follows.onPart {get : σ → τ} {set : τ → σ → σ} {t : Task τ α}
    (ht : Follows R t (get s) h fun r part h' => post r (set part s) h') :
    Follows R (onPart get set t) s h post :=
  Program.Follows.bind ht fun _ _ hpost => hpost

theorem Follows.within {enter : σ → τ} {leave : τ → σ} {t : Task τ α}
    {post : Except Failure (α × τ) → σ → Hand → Prop}
    (ht : Follows R t (enter s) h fun r inner h' =>
      post (r.map fun a => (a, inner)) (leave inner) h') :
    Follows R (within enter leave t) s h post :=
  Program.Follows.bind ht fun _ _ hpost => hpost

theorem Follows.timed {label : Text} (ht : Follows R t s h post) :
    Follows R (timed label t) s h post :=
  ht.andFinally fun _ _ _ hpost => .record hpost

/-- The task comes to a result and does nothing else. -/
def Gives (R : Rules) (t : Task σ α) (s : σ) (h : Hand) (r : Except Failure α) : Prop :=
  Follows R t s h fun r' s' h' => r' = r ∧ s' = s ∧ h' = h

theorem Gives.bind {r : Except Failure α} {k : α → Task σ β}
    {post : Except Failure β → σ → Hand → Prop} (ht : Gives R t s h r)
    (hok : ∀ a, r = .ok a → Follows R (k a) s h post)
    (herror : ∀ e, r = .error e → post (.error e) s h) : Follows R (t >>= k) s h post := by
  refine Follows.bind ht ?_ ?_
  · rintro a _ _ ⟨hr, rfl, rfl⟩
    exact hok a hr.symm
  · rintro e _ _ ⟨hr, rfl, rfl⟩
    exact herror e hr.symm

/-! ### Operations that change files -/

section

variable {p : Path} {bytes : Bytes} {k : Except OsError Unit → Task σ β}
  {post : Except Failure β → σ → Hand → Prop}

/-- Creating a file, and a task that goes on with the answer. -/
theorem Follows.create_bind
    (hok : ∀ w t, h.Holds R w.tree → w.tree.create p bytes = .ok t →
      ∃ h', Move R h (.create p bytes) w h' ∧ Follows R (k (.ok ())) s h' post)
    (herror : ∀ cause, Follows R (k (.error (failAt p cause))) s h post) :
    Follows R (perform (.create p bytes) >>= k) s h post := by
  refine Follows.perform_bind fun w hh =>
    Move.follows_change (k := fun answer => (k answer).program s) (hok w · hh) fun cause hr => ?_
  exact ⟨h, .refuse ⟨cause, hr⟩, herror cause⟩

/-- Writing a file, and a task that goes on with the answer. -/
theorem Follows.write_bind
    (hok : ∀ w t, h.Holds R w.tree → w.tree.write p bytes = .ok t →
      ∃ h', Move R h (.write p bytes) w h' ∧ Follows R (k (.ok ())) s h' post)
    (herror : ∀ cause, Follows R (k (.error (failAt p cause))) s h post) :
    Follows R (perform (.write p bytes) >>= k) s h post := by
  refine Follows.perform_bind fun w hh =>
    Move.follows_change (k := fun answer => (k answer).program s) (hok w · hh) fun cause hr => ?_
  exact ⟨h, .refuse ⟨cause, hr⟩, herror cause⟩

/-- Removing a file that is there, and a task that goes on. -/
theorem Follows.remove_bind
    (hok : ∀ w, h.Holds R w.tree → ∃ t h', w.tree.remove p = .ok t ∧
      Move R h (.remove p) w h' ∧ Follows R (k (.ok ())) s h' post) :
    Follows R (perform (.remove p) >>= k) s h post := by
  refine Follows.perform_bind fun w hh => ?_
  obtain ⟨t, h', hr, hmove, hk⟩ := hok w hh
  refine Move.follows_change (k := fun answer => (k answer).program s)
    (fun _ _ => ⟨h', hmove, hk⟩) fun cause herror => ?_
  rw [hr] at herror
  cases herror

end

/-- **A task that changes no files keeps to all rules**, and to what `view` shows of its state. -/
theorem Keeps.follows {view : σ → ρ} (ht : Keeps (fun _ => False) view t) :
    Follows R t s h fun _ s' h' => view s' = view s ∧ h.Unmoved h' :=
  (ht s).follows

end

end Task

end EntityScaffold.Storage
