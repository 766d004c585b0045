import EntityScaffold.Proofs.Cli.ReadOnly
import EntityScaffold.Proofs.Faults

/-!
# Failures that no exit code tells of

A command line ends with an exit code unless one of a few failures leaves it.  Some come from the
files: names that no file can have, files that cannot be decoded, and a directory in the place of a
file that `list` reads.  The others come from what has been asked for: an entity without a name, an
argument without words, and parts of a plan file of which their format says what they cannot be.

* `PlanFile.confined_load` — how loading a plan file fails.
* `Escapes` — the failures that may leave a command.
* `run_ends` — a command line ends with an exit code or with one of these.
* `run_nameless` — an entity without a name always leads to such an end.
-/

set_option autoImplicit false

namespace EntityScaffold

open Text Storage Storage.Task

section

variable {σ ρ : Type} {view : σ → ρ} {t : Tree} {p : Path}

/-- An error that has been told in other words. -/
theorem of_mapError {ε ε' α : Type} {r : Except ε α} {f : ε → ε'} {e : ε'}
    (h : r.mapError f = .error e) : ∃ e', r = .error e' ∧ f e' = e := by
  cases r with
  | ok a => cases h
  | error e' =>
    cases h
    exact ⟨e', rfl, rfl⟩

/-- One computation after another fails where the first or the second does. -/
theorem of_bind_error {ε α β : Type} {r : Except ε α} {k : α → Except ε β} {e : ε}
    (h : (r >>= k) = .error e) : r = .error e ∨ ∃ a, r = .ok a ∧ k a = .error e := by
  cases r with
  | error e' =>
    cases h
    exact .inl rfl
  | ok a => exact .inr ⟨a, rfl, h⟩

/-- What fails for a list fails for one of its elements. -/
theorem exists_of_mapM_error {ε α β : Type} {f : α → Except ε β} {xs : List α} {e : ε}
    (h : xs.mapM f = .error e) : ∃ x ∈ xs, f x = .error e := by
  induction xs with
  | nil => cases h
  | cons x xs ih =>
    rw [List.mapM_cons] at h
    rcases of_bind_error h with hx | ⟨y, -, h⟩
    · exact ⟨x, List.mem_cons_self, hx⟩
    rcases of_bind_error h with hxs | ⟨ys, -, h⟩
    · obtain ⟨x', hmem, hx'⟩ := ih hxs
      exact ⟨x', List.mem_cons_of_mem x hmem, hx'⟩
    · cases h

/-- Asking what a path leads to is told by the tree. -/
theorem run_kindAt (s : σ) (w : World) :
    ((kindAt p).program s).run w = match kindOf (w.tree.look p) with
      | .ok kind => ((.ok kind, s), w)
      | .error cause => ((.error (.os (failAt p cause)), s), w) := by
  change Program.run ((orOsError ((Operation.kind p).run w).1 : Task σ (Option Kind)).program s)
    ((Operation.kind p).run w).2 = _
  rw [Operation.run]
  cases kindOf (w.tree.look p) <;> rfl

/-- What is a file can be read. -/
theorem exists_read_of_file (h : kindOf (t.look p) = .ok (some .file)) :
    ∃ bytes, t.read p = .ok bytes := by
  rcases hlook : t.look p with cause | ⟨place, _ | _ | bytes⟩
  · rw [hlook] at h
    cases cause <;> cases h
  · rw [hlook] at h
    cases h
  · rw [hlook] at h
    cases h
  · refine ⟨bytes, ?_⟩
    rw [Tree.read, hlook]
    rfl

theorem exists_read_of_isFile {s s' : σ} {w w' : World}
    (h : Yields (isFile p) s w true s' w') : ∃ bytes, w.tree.read p = .ok bytes := by
  obtain ⟨kind, s₁, w₁, hkind, h⟩ := Yields.of_bind h
  obtain ⟨hfile, -, -⟩ := Yields.of_pure h
  refine exists_read_of_file ?_
  rw [Yields, run_kindAt] at hkind
  cases hlook : kindOf (w.tree.look p) with
  | error cause =>
    rw [hlook] at hkind
    cases hkind
  | ok kind' =>
    rw [hlook] at hkind
    cases hkind
    rw [of_decide_eq_true hfile.symm]

end

/-! ## Plan files -/

namespace PlanFile

section

variable {σ ρ : Type} {view : σ → ρ} {t : Tree} {p : Path}

/-- A file that is there and cannot be loaded is one whose contents are at fault. -/
theorem confined_loadAs (hread : ∃ bytes, t.read p = .ok bytes) (format : PlanFormat) :
    Confined (· = t) (fun e => isAboutContent e = true) view
      (loadAs format p : Task σ Contents) := by
  obtain ⟨bytes, hread⟩ := hread
  have htext : Confined (· = t) (fun e => isAboutContent e = true) view
      (readText p : Task σ Text) := by
    refine .perform_bind (.read p) (fun _ hw => hw) fun w hw => ?_
    rw [Operation.run, hw, hread]
    refine Confined.settle fun e he => ?_
    obtain ⟨d, -, rfl⟩ := of_textOf he
    rfl
  refine htext.bind fun text => .settle fun e he => ?_
  obtain ⟨e', -, rfl⟩ := of_mapError he
  rfl

/-- **Loading a plan file** fails because of its contents, unless no file can have its name. -/
theorem confined_load (p : Path) :
    Confined (· = t) (fun e => Unnameable e ∨ isAboutContent e = true) view
      (load p : Task σ Contents) := by
  have hkind : Confined (· = t) (fun e => Unnameable e ∨ isAboutContent e = true) view
      (kindAt p : Task σ (Option Kind)) :=
    (confined_kind_same p).mono fun _ => .inl
  have hthere : Confined (· = t) (fun e => Unnameable e ∨ isAboutContent e = true) view
      (isThere p : Task σ Bool) :=
    hkind.bind fun _ => .pure _
  have hfile : Confined (· = t) (fun e => Unnameable e ∨ isAboutContent e = true) view
      (isFile p : Task σ Bool) :=
    hkind.bind fun _ => .pure _
  refine hthere.bind fun there => ?_
  split
  · exact .throw (.inr rfl)
  refine hfile.bind_of_yields fun file s w s' w' hw hyields => ?_
  cases file with
  | false => exact .throw (.inr rfl)
  | true =>
    obtain rfl : w.tree = t := hw
    have hloadAs : ∀ format, Confined (· = w.tree) (fun e => Unnameable e ∨ isAboutContent e = true)
        view (loadAs format p : Task σ Contents) := fun format =>
      (confined_loadAs (exists_read_of_isFile hyields) format).mono fun _ => .inr
    simp only [Bool.not_true, Bool.false_eq_true, if_false]
    split
    · exact hloadAs .yaml
    split
    · exact hloadAs .json
    · refine Confined.bind (.record _ _ _) fun _ => ?_
      refine (hloadAs .json).attempt_bind (fun _ _ _ _ _ _ => .pure _) fun e he => ?_
      dsimp only
      split
      · exact hloadAs .yaml
      · exact .throw he

end

end PlanFile

namespace PlanData

variable {e : Failure}

/-- Data of a plan file are rejected, or a name is looked up that cannot be. -/
theorem of_settle_inPlan {α : Type} {model : Text} {r : Schema.Checked α}
    {wrap : Schema.Rejection → PlanError}
    (h : (Schema.settle model r).mapError (inPlan wrap) = .error e) :
    (∃ x, e = .plan (wrap x)) ∨ ∃ typeName, e = .unhashable typeName := by
  obtain ⟨e', hsettle, rfl⟩ := of_mapError h
  cases r with
  | ok a => cases hsettle
  | error faults =>
    cases hsettle
    unfold Schema.failureOf
    split
    · exact .inr ⟨_, rfl⟩
    · exact .inl ⟨_, rfl⟩

/-- **Reading the data of a plan file** fails with an error of the file, unless a name is looked up
that cannot be. -/
theorem of_read {es : Entries Value} (h : read es = .error e) :
    (∃ x, e = .plan x) ∨ ∃ typeName, e = .unhashable typeName := by
  rcases of_bind_error h with h | ⟨vs, -, h⟩
  · obtain ⟨x, -, rfl⟩ := of_mapError h
    exact .inl ⟨x, rfl⟩
  rcases of_bind_error h with h | ⟨ps, -, h⟩
  · obtain ⟨v, -, h⟩ := exists_of_mapM_error h
    exact (of_settle_inPlan h).imp_left fun ⟨x, hx⟩ => ⟨_, hx⟩
  rcases of_bind_error h with h | ⟨c, -, h⟩
  · exact (of_settle_inPlan h).imp_left fun ⟨x, hx⟩ => ⟨_, hx⟩
  · cases h

end PlanData

namespace Cli

open Generation

/-! ## What a request asks for -/

/-- The plan of an entity without a name. -/
def nameless : Schema.Rejection := ⟨"EntityPlan", [⟨.emptyText, [.name "name"]⟩]⟩

section

variable {e : Failure}

/-- The failures of a request that an exit code tells of. -/
def IsTold (e : Failure) : Prop := (∃ r, e = .refused r) ∨ ∃ a, e = .argument a

theorem told_of_fieldOf {t : Text} (h : fieldOf t = .error e) : IsTold e := by
  unfold fieldOf at h
  split at h
  · split at h
    · cases h
      exact .inr ⟨_, rfl⟩
    split at h
    · cases h
      exact .inr ⟨_, rfl⟩
    rcases of_bind_error h with h | ⟨type, -, h⟩
    · rw [Edit.requireFieldType] at h
      split at h
      · cases h
      · cases h
        exact .inl ⟨_, rfl⟩
    · cases h
  · cases h
    exact .inr ⟨_, rfl⟩

theorem told_of_relationOf {t : Text} {inverseSides : List Text}
    (h : relationOf t inverseSides = .error e) : IsTold e := by
  unfold relationOf at h
  split at h
  · split at h
    · cases h
      exact .inr ⟨_, rfl⟩
    rcases of_bind_error h with h | ⟨kind, -, h⟩
    · rw [requireKind] at h
      split at h
      · cases h
      · cases h
        exact .inl ⟨_, rfl⟩
    · cases h
  · cases h
    exact .inr ⟨_, rfl⟩

/-- An argument is cut into parts, unless it has no words. -/
theorem of_partsOf_bind {α : Type} {a : Argument} {f : Text → Except Failure α}
    (hf : ∀ t, f t = .error e → IsTold e) (h : (partsOf a >>= f) = .error e) :
    IsTold e ∨ a = .empty ∧ e = .wordless .parts := by
  cases a with
  | text t => exact .inl (hf t h)
  | empty =>
    cases h
    exact .inr ⟨rfl, rfl⟩

/-- What is wrong with the fields and relations of a request is told, unless an argument has no
words. -/
theorem of_specs {r : MakeRequest} (h : r.specs = .error e) :
    IsTold e ∨ .empty ∈ r.fields ++ r.relations ∧ e = .wordless .parts := by
  rcases of_bind_error h with h | ⟨fields, -, h⟩
  · obtain ⟨a, ha, h⟩ := exists_of_mapM_error h
    refine (of_partsOf_bind (fun _ => told_of_fieldOf) h).imp_right ?_
    rintro ⟨rfl, rfl⟩
    exact ⟨List.mem_append_left _ ha, rfl⟩
  rcases of_bind_error h with h | ⟨relations, -, h⟩
  · obtain ⟨a, ha, h⟩ := exists_of_mapM_error h
    refine (of_partsOf_bind (fun _ => told_of_relationOf) h).imp_right ?_
    rintro ⟨rfl, rfl⟩
    exact ⟨List.mem_append_right _ ha, rfl⟩
  · cases h

theorem of_strayName? {known : List Text} {as : List Argument}
    (h : strayName? known as = .error e) : .empty ∈ as ∧ e = .wordless .name := by
  induction as with
  | nil => cases h
  | cons a as ih =>
    cases a with
    | empty =>
      cases h
      exact ⟨List.mem_cons_self, rfl⟩
    | text name =>
      rw [strayName?] at h
      split at h
      · exact ⟨List.mem_cons_of_mem _ (ih h).1, (ih h).2⟩
      · cases h

theorem of_planOf {entity : Text} {fields : List Field} {relations : List Relation}
    (h : planOf entity fields relations = .error e) : entity = [] ∧ e = .rejected nameless := by
  rw [planOf] at h
  split at h
  · cases h
    exact ⟨‹_›, rfl⟩
  · cases h

/-- **Settings that are no configuration are rejected.** -/
theorem rejected_of_configOf {s : Settings} (h : configOf s = .error e) : ∃ r, e = .rejected r :=
  let ⟨_, _, he⟩ := Schema.rejected_of_settle (Schema.faultsIn_checkConfig _) h
  ⟨_, he⟩

end

/-! ## Commands -/

/-- The plan file of a command. -/
def Command.file? : Command → Option Text
  | .apply_ file | .validate file => some file
  | _ => none

/-- The failures that may leave a command, where those in `out` may leave the work on entities. -/
inductive Escapes (out : Failure → Prop) : Command → Failure → Prop where
  | out {c : Command} {e : Failure} (h : out e) (hc : c ≠ .types) : Escapes out c e
  /-- The entity of a request has no name. -/
  | nameless {r : MakeRequest} (h : r.entity = []) : Escapes out (.make r) (.rejected nameless)
  /-- An argument of a request has no words. -/
  | wordless {r : MakeRequest} (use : WordlessUse)
      (h : .empty ∈ r.fields ++ r.relations ++ r.inverseSides) :
      Escapes out (.make r) (.wordless use)
  /-- A part of a plan file is said to be what it cannot be. -/
  | content {c : Command} {file : Text} {e : ContentError} (hc : c.file? = some file)
      (h : e.isAboutValue = false) : Escapes out c (.plan (.content e))
  /-- A part of a plan file is a list, set or map where a name is looked up. -/
  | unhashable {c : Command} {file : Text} (hc : c.file? = some file) (typeName : Text) :
      Escapes out c (.unhashable typeName)
  /-- What `list` takes for the file of an entity is something else. -/
  | listed {e : OsError} (h : e.cause ≠ .notFound) : Escapes out .list (.os e)

theorem Escapes.mono {out out' : Failure → Prop} {c : Command} {e : Failure} (he : Escapes out c e)
    (h : ∀ e, out e → out' e) : Escapes out' c e := by
  cases he with
  | out hout hc => exact .out (h _ hout) hc
  | nameless hr => exact .nameless hr
  | wordless use hempty => exact .wordless use hempty
  | content hc hvalue => exact .content hc hvalue
  | unhashable hc => exact .unhashable hc _
  | listed hcause => exact .listed hcause

section

variable {σ : Type} {inv : Tree → Prop} {out : Failure → Prop} {host : Host} {s : Settings}
  {words : List Text}

theorem confined_start {α : Type} {ok : Failure → Prop} {ρ : Type} {view : σ → ρ} {c : Config}
    {k : Generator → Task σ α} (hk : ∀ g, Confined inv ok view (k g)) :
    Confined inv ok view (Generator.start host c >>= k) :=
  (Confined.bind (.recordAll _) fun _ => .pure _ :
    Confined inv ok view (Generator.start host c : Task σ Generator)).bind hk

theorem confined_make (h : Outlets inv out) (r : MakeRequest) (hconfig : ∃ c, configOf s = .ok c) :
    Confined inv (Escapes out (.make r)) (fun _ => ()) (make host s r) := by
  rw [make]
  cases hspecs : r.specs with
  | error e =>
    rcases of_specs hspecs with (⟨x, rfl⟩ | ⟨x, rfl⟩) | ⟨hempty, rfl⟩
    · exact confined_refuse _ _
    · exact confined_refuse _ _
    · exact .throw (.wordless _ (List.mem_append_left _ hempty))
  | ok specs =>
    obtain ⟨fields, relations⟩ := specs
    refine Confined.bind (.settle fun e he => ?_) fun stray => ?_
    · obtain ⟨hempty, rfl⟩ := of_strayName? he
      exact .wordless _ (List.mem_append_right _ hempty)
    split
    · exact confined_refuse _ _
    · refine Confined.bind (.settle fun e he => ?_) fun p => ?_
      · obtain ⟨hentity, rfl⟩ := of_planOf he
        exact .nameless hentity
      obtain ⟨c, hc⟩ := hconfig
      rw [hc]
      refine confined_start fun g => Confined.bind ?_ fun report =>
        (confined_say _).bind fun _ => .pure _
      exact (Generator.confined_generate h).mono fun e he => .out he (by simp)

/-- Plans are worked on unless their file cannot be loaded, which an exit code tells as a rule. -/
theorem confined_withPlans (h : Outlets inv out) {c : Command} {file : Text}
    (hc : c.file? = some file) {next : List Plan → Config → Task Written ExitCode}
    (hnext : ∀ ps d, Confined inv (Escapes out c) (fun _ => ()) (next ps d)) :
    Confined inv (Escapes out c) (fun _ => ()) (withPlans s file next) := by
  have hload : Confined inv (fun e => Unnameable e ∨ PlanFile.isAboutContent e = true ∨
      ∃ typeName, e = .unhashable typeName) (fun _ => ()) (loadPlans s file : Task Written _) := by
    refine Confined.bind (.of_same fun t _ => (PlanFile.confined_load _).mono fun e he => ?_)
      fun contents => Confined.bind (.recordAll _) fun _ => .settle fun e he => ?_
    · exact he.imp_right .inl
    · rcases PlanData.of_read he with ⟨x, rfl⟩ | hunhashable
      · exact .inr (.inl rfl)
      · exact .inr (.inr hunhashable)
  refine hload.attempt_bind (fun loaded _ _ _ _ _ => hnext _ _) fun e he => ?_
  dsimp only
  split
  · exact confined_refuse _ _
  · rename_i hnot
    refine .throw ?_
    rcases he with hname | hcontent | ⟨typeName, rfl⟩
    · refine .out (h.name e hname) ?_
      rintro rfl
      cases hc
    · cases e with
      | plan e =>
        cases e with
        | content e => exact .content hc (by simpa [isAboutPlanFile] using hnot)
        | _ => exact absurd rfl hnot
      | undecodable e => exact absurd rfl hnot
      | _ => cases hcontent
    · exact .unhashable hc typeName

theorem confined_apply (h : Outlets inv out) (file : Text) :
    Confined inv (Escapes out (.apply_ file)) (fun _ => ()) (apply_ host s file) := by
  refine confined_withPlans h rfl fun ps c => confined_start fun g => ?_
  refine Confined.bind (.mapM fun p _ => ?_) fun reports =>
    Confined.bind (.forM fun _ _ => confined_say _) fun _ => .pure _
  exact (Generator.confined_generate h).mono fun e he => .out he (by simp)

theorem confined_validate (h : Outlets inv out) (file : Text) :
    Confined inv (Escapes out (.validate file)) (fun _ => ()) (validate host s file) := by
  refine confined_withPlans h rfl fun ps c => confined_start fun g => ?_
  have hone : ∀ p, Confined inv (Escapes out (.validate file)) (fun _ => ()) (validateOne g p) := by
    intro p
    refine Confined.bind (.of_same fun t _ => Generator.confined_validate.mono
      fun e he => .out (h.name e he) (by simp)) fun issues => ?_
    exact (confined_say _).bind fun _ => Confined.bind (.forM fun _ _ => confined_say _) fun _ =>
      .pure _
  refine (confined_say _).bind fun _ => (confined_say _).bind fun _ =>
    (confined_say _).bind fun _ => (confined_say _).bind fun _ => (confined_say _).bind fun _ => ?_
  refine Confined.bind (.mapM fun p _ => hone p) fun verdicts => ?_
  dsimp only
  split
  · exact (confined_say _).bind fun _ => (confined_say _).bind fun _ => .pure _
  · exact (confined_say _).bind fun _ => .pure _

theorem confined_list (h : Outlets inv out) (hconfig : ∃ c, configOf s = .ok c) :
    Confined inv (Escapes out .list) (fun _ => ()) (list host s : Task Written ExitCode) := by
  have hcontents : ∀ store name,
      Confined inv (Escapes out .list) (fun _ => ()) (contents store name : Task Written Text) := by
    intro store name
    refine Confined.bind (.readText? (fun e he => .listed he) fun t bytes e ht hread he => ?_)
      fun source => ?_
    · have hout := h.usual.undecodable t _ bytes e ht hread he
      exact .out (hout.resolve_left (by simp [Failure.isContained])) (by simp)
    · have hopen : Confined inv (fun e => ∃ x, e = .unparsable x) (fun _ => ())
          (openClass (source.getD []) (store.pathFor name) : Task Written _) :=
        confined_openClass (fun e => ⟨e, rfl⟩) _ _
      refine hopen.attempt_bind (fun _ _ _ _ _ _ => .pure _) fun e he => ?_
      obtain ⟨x, rfl⟩ := he
      exact .pure _
  obtain ⟨c, hc⟩ := hconfig
  rw [list, hc]
  refine Confined.bind (.pure c) fun c => ?_
  refine Confined.bind (.of_same fun t _ => (Store.confined_entities _).mono
    fun e he => .out (h.name e he) (by simp)) fun names => ?_
  dsimp only
  split
  · exact (confined_say _).bind fun _ => .pure _
  · refine Confined.bind (.forM fun name _ => ?_) fun _ => .pure _
    exact (hcontents _ name).bind fun _ => confined_say _

theorem confined_types : Confined inv (fun _ => False) (fun _ => ()) (types : Task σ ExitCode) := by
  have hlines : ∀ lines : List Text,
      Confined inv (fun _ => False) (fun _ => ()) (lines.forM say : Task σ PUnit) := fun _ =>
    .forM fun line _ => confined_say line
  have htypes : ∀ ts : List FieldType, Confined inv (fun _ => False) (fun _ => ())
      (ts.forM fun t => say (fieldTypeLine t) : Task σ PUnit) := fun _ =>
    .forM fun _ _ => confined_say _
  rw [types]
  refine (confined_say _).bind fun _ => (htypes _).bind fun _ => (confined_say _).bind fun _ => ?_
  exact (hlines _).bind fun _ => .pure _

/-! ## Command lines -/

theorem Invocation.confined_perform (h : Outlets inv out) (i : Invocation)
    (hconfig : ∃ c, configOf i.settings = .ok c) :
    Confined inv (Escapes out i.command) (fun _ => ()) (i.perform host) := by
  rw [Invocation.perform]
  cases i.command with
  | make r => exact confined_make h r hconfig
  | apply_ file => exact confined_apply h file
  | validate file => exact confined_validate h file
  | list => exact confined_list h hconfig
  | types => exact confined_types.mono fun _ => False.elim

theorem Invocation.confined_carryOut (h : Outlets inv out) (i : Invocation) :
    Confined inv (Escapes out i.command) (fun _ => ()) (i.carryOut host) := by
  unfold Invocation.carryOut
  cases hconfig : configOf i.settings with
  | error e =>
    obtain ⟨r, rfl⟩ := rejected_of_configOf hconfig
    exact confined_refuse _ _
  | ok c =>
    refine Confined.bind (.record _ _ _) fun _ => ?_
    refine (Invocation.confined_perform h i ⟨c, hconfig⟩).bind fun code => ?_
    dsimp only
    split
    · exact Confined.bind (.record _ _ _) fun _ => .pure _
    · exact .pure _

/-- **Of all failures only these leave a command line.** -/
theorem confined_run (h : Outlets inv out) (words : List Text) :
    Confined inv (fun e => ∃ i, Invocation.ofWords words = .ok i ∧ Escapes out i.command e)
      (fun _ => ()) (run host words) := by
  unfold run
  cases hwords : Invocation.ofWords words with
  | ok i =>
    exact (Invocation.confined_carryOut h i).mono fun e he => ⟨i, rfl, he⟩
  | error stop =>
    cases stop with
    | help => exact .pure _
    | version => exact (confined_say _).bind fun _ => .pure _
    | misuse => exact .pure _

/-- **A command line ends with an exit code**, unless one of these failures leaves it.  That of a
file which cannot be decoded does not where there is no such file. -/
theorem run_ends (host : Host) (words : List Text) (ws : Written) (w : World) :
    (∃ code ws' w', Yields (run host words) ws w code ws' w') ∨
      ∃ i e, Invocation.ofWords words = .ok i ∧
        (((run host words).program ws).run w).1.1 = .error e ∧
        Escapes (fun e => Unnameable e ∨ (∃ d, e = .undecodable d) ∧ ¬ AllText w.tree)
          i.command e := by
  rcases hrun : ((run host words).program ws).run w with ⟨⟨e | code, ws'⟩, w'⟩
  · refine .inr ?_
    by_cases htext : AllText w.tree
    · obtain ⟨i, hi, he⟩ := (confined_run outlets_allText words ws w htext).2.2 e
        (congrArg (·.1.1) hrun)
      exact ⟨i, e, hi, rfl, he.mono fun _ => .inl⟩
    · obtain ⟨i, hi, he⟩ := (confined_run outlets_undecodable words ws w trivial).2.2 e
        (congrArg (·.1.1) hrun)
      exact ⟨i, e, hi, rfl, he.mono fun _ => .imp_right fun hd => ⟨hd, htext⟩⟩
  · exact .inl ⟨code, ws', w', hrun⟩

/-- **An entity without a name is no matter of exit codes**: where nothing else is wrong with the
request its failure leaves the command line, whatever the files are. -/
theorem run_nameless {i : Invocation} {r : MakeRequest} {c : Config} {fields : List Field}
    {relations : List Relation} (hwords : Invocation.ofWords words = .ok i)
    (hconfig : configOf i.settings = .ok c) (hcommand : i.command = .make r)
    (hentity : r.entity = []) (hspecs : r.specs = .ok (fields, relations))
    (hstray : strayName? (relations.filterMap fun r => given? r.property) r.inverseSides = .ok none)
    (tree : Tree) :
    Comes tree (run host words) (.error (.rejected nameless)) := by
  have hmake : Comes tree (make host i.settings r) (.error (.rejected nameless)) := by
    rw [make, hspecs]
    dsimp only
    rw [hstray, planOf, if_pos hentity]
    exact (Comes.pure none).bind_ok ((Comes.throw _).bind_error)
  rw [run, hwords]
  change Comes tree (i.carryOut host) _
  unfold Invocation.carryOut
  rw [hconfig]
  refine Comes.bind_ok (a := ()) (fun s w hw => ⟨_, rfl, hw⟩) (Comes.bind_error ?_)
  rw [Invocation.perform, hcommand]
  exact hmake

end

/-- `make ""` ends without an exit code. -/
example : (((run ⟨"4711", []⟩ ["make", ""]).program []).run { tree := {} }).1.1 =
    .error (.rejected nameless) := by decide +kernel

end Cli

end EntityScaffold
