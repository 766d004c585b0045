import EntityScaffold.Proofs.Cli.Settings
import EntityScaffold.Proofs.DryRuns

/-!
# Command lines that leave all files alone

`validate`, `list` and `types` only look at files, and so do `make` and `apply` in a dry run.  Which
configuration `apply` works under is known once the plan file has been read; what reading it comes to
depends on the files alone.

* `Comes` — a task that only looks, and what it comes to.
* `Invocation.config?` — the configuration that an invocation works under.
* `Invocation.IsReadOnly` — the invocations that are to leave all files alone.
* `run_leaves_files` — they do.
-/

set_option autoImplicit false

namespace EntityScaffold

open Text Storage Storage.Task

namespace Storage.Task

variable {σ ρ α β : Type} {tree : Tree} {view : σ → ρ} {t : Task σ α}

/-- From this tree the task comes to `r`, and leaves the tree and its state as they are. -/
def Comes (tree : Tree) (t : Task σ α) (r : Except Failure α) : Prop :=
  ∀ s w, w.tree = tree → ∃ w', (t.program s).run w = ((r, s), w') ∧ w'.tree = tree

/-- What the task comes to depends on the tree alone. -/
def OnlyLooks (tree : Tree) (t : Task σ α) : Prop := ∃ r, Comes tree t r

theorem Comes.pure (a : α) : Comes tree (pure a : Task σ α) (.ok a) := fun _ w hw => ⟨w, rfl, hw⟩

theorem Comes.throw (e : Failure) : Comes tree (throw e : Task σ α) (.error e) :=
  fun _ w hw => ⟨w, rfl, hw⟩

theorem Comes.bind_ok {k : α → Task σ β} {a : α} {r : Except Failure β} (h : Comes tree t (.ok a))
    (hk : Comes tree (k a) r) : Comes tree (t >>= k) r := by
  intro s w hw
  obtain ⟨w₁, hrun, hw₁⟩ := h s w hw
  obtain ⟨w₂, hrun₂, hw₂⟩ := hk s w₁ hw₁
  exact ⟨w₂, by rw [run_bind_of_ok hrun, hrun₂], hw₂⟩

theorem Comes.bind_error {k : α → Task σ β} {e : Failure} (h : Comes tree t (.error e)) :
    Comes tree (t >>= k) (.error e) := by
  intro s w hw
  obtain ⟨w₁, hrun, hw₁⟩ := h s w hw
  exact ⟨w₁, run_bind_of_error hrun, hw₁⟩

/-- A task comes to one result. -/
theorem Comes.unique [Inhabited σ] {r r' : Except Failure α} (h : Comes tree t r)
    (h' : Comes tree t r') : r = r' := by
  obtain ⟨_, hrun, -⟩ := h default { tree := tree } rfl
  obtain ⟨_, hrun', -⟩ := h' default { tree := tree } rfl
  rw [hrun] at hrun'
  exact (Prod.ext_iff.mp (Prod.ext_iff.mp hrun').1).1

theorem OnlyLooks.pure (a : α) : OnlyLooks tree (pure a : Task σ α) := ⟨_, .pure a⟩

theorem OnlyLooks.throw (e : Failure) : OnlyLooks tree (throw e : Task σ α) := ⟨_, .throw e⟩

theorem OnlyLooks.bind {k : α → Task σ β} (h : OnlyLooks tree t) (hk : ∀ a, OnlyLooks tree (k a)) :
    OnlyLooks tree (t >>= k) := by
  obtain ⟨_ | a, ht⟩ := h
  · exact ⟨_, ht.bind_error⟩
  · obtain ⟨r, hr⟩ := hk a
    exact ⟨r, ht.bind_ok hr⟩

theorem Comes.settle (r : Except Failure α) : Comes tree (settle r : Task σ α) r := by
  cases r with
  | ok a => exact .pure a
  | error e => exact .throw e

theorem OnlyLooks.settle (r : Except Failure α) : OnlyLooks tree (settle r : Task σ α) :=
  ⟨_, .settle r⟩

/-- An operation that looks, and a task that goes on with its answer. -/
theorem OnlyLooks.perform_bind (op : Operation)
    (hop : ∀ w w' : World, w.tree = w'.tree → (op.run w).1 = (op.run w').1)
    (hkeep : ∀ w, (op.run w).2.tree = w.tree) {k : op.Answer → Task σ β}
    (hk : ∀ answer, OnlyLooks tree (k answer)) : OnlyLooks tree (perform op >>= k) := by
  obtain ⟨r, hr⟩ := hk (op.run { tree := tree }).1
  refine ⟨r, fun s w hw => ?_⟩
  have hanswer : (op.run w).1 = (op.run { tree := tree }).1 := hop _ _ hw
  rw [← hanswer] at hr
  exact hr s (op.run w).2 ((hkeep w).trans hw)

theorem OnlyLooks.record (level : Log.Level) (topic : Log.Topic) (message : Text) :
    OnlyLooks tree (record level topic message : Task σ Unit) := ⟨.ok (), fun _ _ hw => ⟨_, rfl, hw⟩⟩

theorem Comes.recordAll (rs : List Log.Record) :
    Comes tree (recordAll rs : Task σ PUnit) (.ok ()) := by
  induction rs with
  | nil => exact .pure _
  | cons r rs ih => exact .bind_ok (a := ()) (fun _ _ hw => ⟨_, rfl, hw⟩) ih

theorem OnlyLooks.recordAll (rs : List Log.Record) :
    OnlyLooks tree (recordAll rs : Task σ PUnit) := ⟨_, .recordAll rs⟩

/-- An attempt comes to the result of its task. -/
theorem Comes.attempt {r : Except Failure α} (h : Comes tree t r) :
    Comes tree (attempt t) (.ok r) := by
  intro s w hw
  obtain ⟨w', hrun, hw'⟩ := h s w hw
  have hattempt : (Task.attempt t).program s =
      (t.program s).bind fun r => Program.done (.ok r.1, r.2) := rfl
  refine ⟨w', ?_, hw'⟩
  rw [hattempt, Program.run_bind, hrun]
  rfl

theorem OnlyLooks.attempt (h : OnlyLooks tree t) : OnlyLooks tree (attempt t) :=
  let ⟨r, hr⟩ := h
  ⟨.ok r, hr.attempt⟩

/-- A task that only looks, and one that goes on with what it comes to. -/
theorem Comes.still_bind {k : α → Task σ β} {a : α} (h : Comes tree t (.ok a))
    (hk : Still tree view (k a)) : Still tree view (t >>= k) := by
  intro s w hw
  obtain ⟨w', hrun, hw'⟩ := h s w hw
  rw [run_bind_of_ok hrun]
  exact hk s w' hw'

end Storage.Task

/-! ## Reading a plan file -/

namespace PlanFile

variable {σ : Type} {tree : Tree}

theorem onlyLooks_kindAt (p : Path) : OnlyLooks tree (kindAt p : Task σ (Option Kind)) := by
  refine .perform_bind (.kind p) (fun w w' h => ?_) (fun _ => rfl) fun answer => ?_
  · rw [Operation.run, Operation.run, h]
  · cases answer with
    | ok kind => exact .pure kind
    | error e => exact .throw (.os e)

theorem onlyLooks_readText (p : Path) : OnlyLooks tree (readText p : Task σ Text) := by
  refine .perform_bind (.read p) (fun w w' h => ?_) (fun _ => rfl) fun answer => ?_
  · rw [Operation.run, Operation.run, h]
  · cases answer with
    | ok bytes => exact .settle _
    | error e => exact .throw (.os e)

theorem onlyLooks_loadAs (format : PlanFormat) (p : Path) :
    OnlyLooks tree (loadAs format p : Task σ Contents) :=
  (onlyLooks_readText p).bind fun _ => .settle _

theorem onlyLooks_load (p : Path) : OnlyLooks tree (load p : Task σ Contents) := by
  have heither : OnlyLooks tree (loadAsEither p : Task σ Contents) := by
    refine (onlyLooks_loadAs .json p).attempt.bind fun r => ?_
    cases r with
    | ok contents => exact .pure _
    | error e =>
      dsimp only
      split
      · exact onlyLooks_loadAs .yaml p
      · exact .throw e
  refine OnlyLooks.bind ((onlyLooks_kindAt p).bind fun _ => .pure _) fun there => ?_
  split
  · exact .throw _
  refine OnlyLooks.bind ((onlyLooks_kindAt p).bind fun _ => .pure _) fun file => ?_
  split
  · exact .throw _
  dsimp only
  split
  · exact onlyLooks_loadAs .yaml p
  split
  · exact onlyLooks_loadAs .json p
  · exact (OnlyLooks.record _ _ _).bind fun _ => heither

end PlanFile

namespace Cli

open Generation

section

variable {σ ρ : Type} {tree : Tree} {view : σ → ρ} {h : Host} {s : Settings} {file : Text}

/-- **What loading plans comes to depends on the files alone.** -/
theorem onlyLooks_loadPlans (s : Settings) (file : Text) :
    OnlyLooks tree (loadPlans s file : Task σ (List Plan × Config)) :=
  (PlanFile.onlyLooks_load _).bind fun _ => (OnlyLooks.recordAll _).bind fun _ => .settle _

/-! ## Invocations and their configurations -/

/-- The configuration of a plan file under the settings, if it can be loaded. -/
def configOfPlans (s : Settings) (file : Text) (t : Tree) : Option Config :=
  match (((loadPlans s file : Task Written _).program []).run { tree := t }).1.1 with
  | .ok (_, c) => some c
  | .error _ => none

/-- The configuration that an invocation works under: that of its plan file, if it has one, and else
that of its settings. -/
def Invocation.config? (i : Invocation) (t : Tree) : Option Config :=
  match i.command with
  | .apply_ file | .validate file => configOfPlans i.settings file t
  | _ => (configOf i.settings).toOption

/-- Whether a command only looks at files. -/
def Command.looks : Command → Bool
  | .validate _ | .list | .types => true
  | _ => false

/-- The invocation is to leave all files alone: its command only looks, or it is a dry run, because
the command line asks for one or because the configuration that it works under is that of one. -/
def Invocation.IsReadOnly (i : Invocation) (t : Tree) : Prop :=
  i.command.looks = true ∨ i.settings.dryRun = true ∨
    ∀ c, i.config? t = some c → c.dryRun = true

/-- **A dry run that the command line asks for is one**, whatever the plan file says of it. -/
theorem Invocation.IsReadOnly.dryRun {i : Invocation} {t : Tree} (hread : i.IsReadOnly t)
    (hlooks : i.command.looks = false) {c : Config} (hc : i.config? t = some c) :
    c.dryRun = true := by
  rcases hread with hlooks' | hdry | hread
  · rw [hlooks] at hlooks'
    cases hlooks'
  · have hsettings : ∀ c, (configOf i.settings).toOption = some c → c.dryRun = true := by
      intro c hc
      cases hconfig : configOf i.settings with
      | error e =>
        rw [hconfig] at hc
        cases hc
      | ok d =>
        rw [hconfig] at hc
        cases hc
        exact dryRun_of_configOf hdry hconfig
    have hplans : ∀ file c, configOfPlans i.settings file t = some c → c.dryRun = true := by
      intro file c hc
      rw [configOfPlans] at hc
      rcases hrun : ((loadPlans i.settings file : Task Written _).program []).run { tree := t } with
        ⟨⟨_ | ⟨ps, d⟩, ws⟩, w⟩
      · rw [hrun] at hc
        cases hc
      · rw [hrun] at hc
        cases hc
        exact dryRun_of_loadPlans hdry hrun
    rw [Invocation.config?] at hc
    split at hc
    · exact hplans _ c hc
    · exact hplans _ c hc
    · exact hsettings c hc
  · exact hread c hc

/-! ## Commands -/

theorem confined_say {inv : Tree → Prop} {ok : Failure → Prop} (line : Text) :
    Confined inv ok view (say line : Task σ Unit) :=
  .perform_bind (.say line) (fun _ hw => hw) fun _ _ => .pure _

theorem confined_refuse {inv : Tree → Prop} {ok : Failure → Prop} (message : Text)
    (code : ExitCode) : Confined inv ok view (refuse message code : Task σ ExitCode) :=
  Confined.bind (.record _ _ _) fun _ => .pure _

/-- A generator that has been made ready works under its configuration. -/
theorem still_start {α : Type} {c : Config} {k : Generator → Task σ α}
    (hk : Still tree view (k ⟨⟨c, h.owner⟩, h.base⟩)) :
    Still tree view (Generator.start h c >>= k) := by
  have hstart : Comes tree (Generator.start h c : Task σ Generator) (.ok ⟨⟨c, h.owner⟩, h.base⟩) :=
    fun _ _ hw => ⟨_, rfl, hw⟩
  exact hstart.still_bind hk

/-- Plans are worked on under the configuration of their file. -/
theorem still_withPlans {next : List Plan → Config → Task Written ExitCode}
    (hnext : ∀ ps c, configOfPlans s file tree = some c →
      Still tree (fun ws : Written => ws) (next ps c)) :
    Still tree (fun ws : Written => ws) (withPlans s file next) := by
  obtain ⟨r, hr⟩ : OnlyLooks tree (loadPlans s file : Task Written _) := onlyLooks_loadPlans s file
  refine hr.attempt.still_bind ?_
  cases r with
  | ok loaded =>
    obtain ⟨ps, c⟩ := loaded
    refine hnext ps c ?_
    obtain ⟨w', hrun, -⟩ := hr [] { tree := tree } rfl
    rw [configOfPlans, hrun]
  | error e =>
    dsimp only
    split
    · exact confined_refuse _ _
    · exact .throw trivial

theorem still_make (r : MakeRequest) (hdry : ∀ c, configOf s = .ok c → c.dryRun = true) :
    Still tree (fun ws : Written => ws) (make h s r) := by
  rw [make]
  split
  · exact confined_refuse _ _
  · exact confined_refuse _ _
  · exact .throw trivial
  · refine Confined.bind (.settle fun _ _ => trivial) fun stray => ?_
    split
    · exact confined_refuse _ _
    · refine Confined.bind (.settle fun _ _ => trivial) fun p => ?_
      cases hc : configOf s with
      | error e => exact .throw trivial
      | ok c =>
        refine still_start (Confined.bind ?_ fun report => (confined_say _).bind fun _ => .pure _)
        exact Generator.still_generate (g := ⟨⟨c, h.owner⟩, h.base⟩) (hdry c hc)

theorem still_apply (hdry : ∀ c, configOfPlans s file tree = some c → c.dryRun = true) :
    Still tree (fun ws : Written => ws) (apply_ h s file) :=
  still_withPlans fun ps c hc => still_start <|
    (Generator.still_generateAll (g := ⟨⟨c, h.owner⟩, h.base⟩) (hdry c hc) ps).bind fun _ =>
      (Confined.forM fun _ _ => confined_say _).bind fun _ => .pure _

theorem still_validate : Still tree (fun ws : Written => ws) (validate h s file) := by
  refine still_withPlans fun ps c _ => still_start ?_
  have hone : ∀ g p, Still tree (fun ws : Written => ws) (validateOne g p) := fun g p =>
    Generator.confined_validate.still.bind fun issues => (confined_say _).bind fun _ =>
      (Confined.forM fun _ _ => confined_say _).bind fun _ => .pure _
  refine (confined_say _).bind fun _ => (confined_say _).bind fun _ => (confined_say _).bind fun _ =>
    (confined_say _).bind fun _ => (confined_say _).bind fun _ => ?_
  refine (Confined.mapM fun p _ => hone _ p).bind fun verdicts => ?_
  dsimp only
  split
  · exact (confined_say _).bind fun _ => (confined_say _).bind fun _ => .pure _
  · exact (confined_say _).bind fun _ => .pure _

theorem still_list : Still tree view (list h s : Task σ ExitCode) := by
  have hcontents : ∀ store name, Still tree view (contents store name : Task σ Text) := by
    intro store name
    refine (still_readText? _).bind fun source => ?_
    refine (confined_openClass (fun _ => trivial) _ _ : Still tree view _).attempt_bind
      (fun _ _ _ _ _ _ => .pure _) fun e _ => ?_
    split
    · exact .pure _
    · exact .pure _
    · exact .throw trivial
  refine Confined.bind (.settle fun _ _ => trivial) fun c => ?_
  refine (Store.confined_entities _).still.bind fun names => ?_
  dsimp only
  split
  · exact (confined_say _).bind fun _ => .pure _
  · refine Confined.bind (.forM fun name _ => ?_) fun _ => .pure _
    exact (hcontents _ name).bind fun _ => confined_say _

theorem still_types : Still tree view (types : Task σ ExitCode) := by
  have hlines : ∀ (lines : List Text), Still tree view (lines.forM say : Task σ PUnit) := fun _ =>
    .forM fun line _ => confined_say line
  have htypes : ∀ (ts : List FieldType),
      Still tree view (ts.forM fun t => say (fieldTypeLine t) : Task σ PUnit) := fun _ =>
    .forM fun _ _ => confined_say _
  rw [types]
  refine (confined_say _).bind fun _ => ?_
  refine (htypes _).bind fun _ => ?_
  refine (confined_say _).bind fun _ => ?_
  exact (hlines _).bind fun _ => .pure _

theorem Invocation.still_perform {i : Invocation} (hread : i.IsReadOnly tree) :
    Still tree (fun ws : Written => ws) (i.perform h) := by
  rw [Invocation.perform]
  split
  · rename_i r hcommand
    refine still_make r fun c hc => hread.dryRun ?_ ?_
    · rw [hcommand]
      rfl
    · rw [Invocation.config?, hcommand, hc]
      rfl
  · rename_i file hcommand
    refine still_apply fun c hc => hread.dryRun ?_ ?_
    · rw [hcommand]
      rfl
    · rw [Invocation.config?, hcommand]
      exact hc
  · exact still_validate
  · exact still_list
  · exact still_types

/-- **An invocation that is to leave all files alone does so**, however it ends. -/
theorem Invocation.still_carryOut {i : Invocation} (hread : i.IsReadOnly tree) :
    Still tree (fun ws : Written => ws) (i.carryOut h) := by
  unfold Invocation.carryOut
  cases configOf i.settings with
  | error e =>
    cases e with
    | rejected r => exact confined_refuse _ _
    | _ => exact .throw trivial
  | ok c =>
    refine Confined.bind (.record _ _ _) fun _ => ?_
    refine (Invocation.still_perform hread).bind fun code => ?_
    dsimp only
    split
    · exact Confined.bind (.record _ _ _) fun _ => .pure _
    · exact .pure _

end

/-- **Command lines that only look, and dry runs, leave all files and directories as they are**, whether
they return or fail; nothing counts as written, and no report that a run under the configuration can
have lists a file. -/
theorem run_leaves_files (h : Host) (words : List Text) (ws : Written) (w : World)
    (hread : ∀ i, Invocation.ofWords words = .ok i → i.IsReadOnly w.tree) :
    (((run h words).program ws).run w).2.tree = w.tree ∧
      (((run h words).program ws).run w).1.2 = ws ∧
      ∀ i c, Invocation.ofWords words = .ok i → i.command.looks = false →
        i.config? w.tree = some c → ∀ p ws₁ w₁ report ws₂ w₂,
          Yields ((⟨⟨c, h.owner⟩, h.base⟩ : Generator).generate p) ws₁ w₁ report ws₂ w₂ →
            report.writtenFiles = [] := by
  have hstill : Still w.tree (fun ws : Written => ws) (run h words) := by
    rw [run]
    cases hwords : Invocation.ofWords words with
    | ok i => exact Invocation.still_carryOut (hread i hwords)
    | error stop =>
      cases stop with
      | help => exact .pure _
      | version => exact (confined_say _).bind fun _ => .pure _
      | misuse => exact .pure _
  obtain ⟨htree, hwritten, -⟩ := hstill ws w rfl
  refine ⟨htree, hwritten, fun i c hi hlooks hc p ws₁ w₁ report ws₂ w₂ hyields => ?_⟩
  have hdry : c.dryRun = true := (hread i hi).dryRun hlooks hc
  exact Generator.writtenFiles_of_dryRun (g := ⟨⟨c, h.owner⟩, h.base⟩) hdry hyields

/-- A command line that asks for a dry run. -/
def dryMake : List Text := ["--dry-run", "make", "Post", "--field", "title:string"]

theorem run_leaves_files_of_dryMake :
    (∀ i, Invocation.ofWords dryMake = .ok i → i.IsReadOnly {}) ∧
      (((run ⟨"4711", []⟩ dryMake).program []).run { tree := {} }).2.tree = {} := by
  have hread : ∀ i, Invocation.ofWords dryMake = .ok i → i.IsReadOnly {} := by
    intro i hi
    have hwords : Invocation.ofWords dryMake = .ok ⟨{ dryRun := true },
        .make { entity := "Post", fields := [.text "title:string"] }⟩ := by decide +kernel
    rw [hwords] at hi
    cases hi
    exact .inr (.inl rfl)
  exact ⟨hread, (run_leaves_files ⟨"4711", []⟩ dryMake [] { tree := {} } hread).1⟩

end Cli

end EntityScaffold
