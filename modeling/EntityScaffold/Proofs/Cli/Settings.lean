import EntityScaffold.Cli.Run
import EntityScaffold.Proofs.Levels
import EntityScaffold.Proofs.Storage.Tasks

/-!
# Settings that take precedence

A command line that asks for a dry run gets one, whatever the plan file says of it: the setting stands
in the data of the configuration when these are read.  In a YAML document it is put into the very
collection that the key `config` leads to, which may stand in other places, too, and may even hold
itself.

* `Schema.dryRun_of_checkConfig` — what the data of a configuration say is what it is.
* `Settings.find?_overrides`, `Settings.find?_overridden` — the setting, alone and put into others.
* `Yaml.Document.withSettings_of_map`, `Yaml.Document.withSettings_of_none` — where settings go in a
  document.
* `Yaml.Document.find?_withSettings` — the setting in a document.
* `PlanFile.of_load` — what has been loaded has been read of a text.
* `dryRun_of_configOf`, `dryRun_of_loadPlans` — a command line that asks for a dry run gets one.
-/

set_option autoImplicit false

namespace EntityScaffold

open Text

/-! ## Checked data -/

namespace Schema

section

variable {α β : Type}

/-- A function has been applied if both it and its argument are sound. -/
theorem Checked.seq_eq_pure {f : Checked (α → β)} {a : Checked α} {b : β} :
    f <*> a = pure b ↔ ∃ g x, f = pure g ∧ a = pure x ∧ g x = b := by
  constructor
  · intro h
    cases f with
    | error e => cases a <;> cases h
    | ok g =>
      cases a with
      | error e => cases h
      | ok x =>
        cases h
        exact ⟨g, x, rfl, rfl, rfl⟩
  · rintro ⟨g, x, rfl, rfl, rfl⟩
    rfl

theorem Checked.map_eq_pure {f : α → β} {a : Checked α} {b : β} :
    f <$> a = pure b ↔ ∃ x, a = pure x ∧ f x = b := by
  constructor
  · intro h
    cases a with
    | error e => cases h
    | ok x =>
      cases h
      exact ⟨x, rfl, rfl⟩
  · rintro ⟨x, rfl, rfl⟩
    rfl

theorem Checked.seqLeft_eq_pure {a : Checked α} {u : Checked β} {x : α} :
    a <* u = pure x ↔ a = pure x ∧ ∃ v, u = pure v := by
  change (Function.const β <$> a) <*> u = pure x ↔ _
  rw [Checked.seq_eq_pure]
  constructor
  · rintro ⟨g, v, hg, hv, hx⟩
    obtain ⟨y, hy, rfl⟩ := Checked.map_eq_pure.mp hg
    cases hx
    exact ⟨hy, v, hv⟩
  · rintro ⟨ha, v, hv⟩
    exact ⟨_, v, Checked.map_eq_pure.mpr ⟨x, ha, rfl⟩, hv, rfl⟩

theorem Checked.of_under {k : Key} {a : Checked α} {x : α} (h : a.under k = pure x) : a = pure x := by
  cases a with
  | error faults => cases h
  | ok y => exact h

end

/-- The value of a key that is there. -/
theorem optional_of_find? {α : Type} {es : Entries Value} {key : Text} {v : Value} {default a : α}
    {check : Value → Checked α} (hfind : Value.find? es key = some v)
    (h : optional es (slot key) default check = pure a) : check v = pure a := by
  have hslot : (slot key).find? es = some v := by
    rw [Slot.find?, Slot.used, slot]
    dsimp only
    rw [ite_self, hfind]
  rw [optional, hslot] at h
  exact Checked.of_under h

/-- **What the data of a configuration say of dry runs is what it is.** -/
theorem dryRun_of_checkConfig {es : Entries Value} {c : Config} {b : Bool}
    (hfind : Value.find? es "dry_run" = some (.bool b))
    (h : checkConfig (.map es) = pure c) : c.dryRun = b := by
  obtain ⟨h, -⟩ := Checked.seqLeft_eq_pure.mp h
  obtain ⟨f, dryRun, hf, hdry, rfl⟩ := Checked.seq_eq_pure.mp h
  have hb := optional_of_find? hfind hdry
  cases hb
  -- the settings before it
  obtain ⟨f₁, _, hf₁, -, rfl⟩ := Checked.seq_eq_pure.mp hf
  obtain ⟨f₂, _, hf₂, -, rfl⟩ := Checked.seq_eq_pure.mp hf₁
  obtain ⟨f₃, _, hf₃, -, rfl⟩ := Checked.seq_eq_pure.mp hf₂
  obtain ⟨f₄, _, hf₄, -, rfl⟩ := Checked.seq_eq_pure.mp hf₃
  obtain ⟨f₅, _, hf₅, -, rfl⟩ := Checked.seq_eq_pure.mp hf₄
  obtain ⟨f₆, _, hf₆, -, rfl⟩ := Checked.seq_eq_pure.mp hf₅
  obtain ⟨f₇, _, hf₇, -, rfl⟩ := Checked.seq_eq_pure.mp hf₆
  obtain ⟨f₈, _, hf₈, -, rfl⟩ := Checked.seq_eq_pure.mp hf₇
  obtain ⟨f₉, _, hf₉, -, rfl⟩ := Checked.seq_eq_pure.mp hf₈
  obtain ⟨_, -, rfl⟩ := Checked.map_eq_pure.mp hf₉
  rfl

/-- What is settled has been checked. -/
theorem checked_of_settle {α : Type} {model : Text} {r : Checked α} {a : α}
    (h : settle model r = .ok a) : r = pure a := by
  cases r with
  | error faults => cases h
  | ok b =>
    cases h
    rfl

end Schema

/-! ## Documents -/

namespace Entries

variable {α β : Type}

/-- Putting other keys keeps the value of a key. -/
theorem find?_foldl_put {key : Atom} {others : Entries β} (wrap : β → α)
    (h : ∀ e ∈ others, e.1.same key = false) (es : Entries α) :
    (others.foldl (fun es e => es.put e.1 (wrap e.2)) es).find? key = es.find? key := by
  induction others generalizing es with
  | nil => rfl
  | cons e others ih =>
    rw [List.foldl_cons, ih fun e he => h e (List.mem_cons_of_mem _ he)]
    exact find?_put_of_not_same _ (h e List.mem_cons_self)

end Entries

namespace Yaml.Document

section

variable {d : Document}

/-- **What stands in a map within the map that a document is shows in its value.** -/
theorem find?_value {n m : Nat} {es inner : Entries Item} {key key' : Atom} {v : Value}
    (hroot : d.root? = some (n, es)) (hkey : es.find? key = some (.part m))
    (hinner : d.parts[m]? = some (.map inner)) (hkey' : inner.find? key' = some (.value v)) :
    ∃ entries found, d.value = .map entries ∧ Entries.find? entries key = some (.map found) ∧
      Entries.find? found key' = some v := by
  refine ⟨_, d.known (d.parts.size + 6) inner, value_of_root? hroot, ?_, ?_⟩
  · rw [find?_known, hkey, Option.map_some, itemValue_part hinner, partValue_map]
  · rw [find?_known, hkey']
    rfl

/-- The map under a key, and its number, if there is one. -/
def mapUnder? (d : Document) (es : Entries Item) (key : Atom) : Option (Nat × Entries Item) :=
  (es.find? key).bind fun
    | .part m => (d.parts[m]?).bind fun
      | .map inner => some (m, inner)
      | _ => none
    | _ => none

theorem mapUnder?_eq_some_iff {es inner : Entries Item} {key : Atom} {m : Nat} :
    d.mapUnder? es key = some (m, inner) ↔
      es.find? key = some (.part m) ∧ d.parts[m]? = some (.map inner) := by
  unfold mapUnder?
  constructor
  · intro h
    obtain ⟨i, hi, h⟩ := Option.bind_eq_some_iff.mp h
    split at h
    · obtain ⟨p, hp, h⟩ := Option.bind_eq_some_iff.mp h
      split at h
      · cases h
        exact ⟨hi, hp⟩
      · cases h
    · cases h
  · rintro ⟨hi, hp⟩
    rw [hi, Option.bind_some]
    show (d.parts[m]?).bind _ = _
    rw [hp]
    rfl

/-- The members of a map under settings. -/
def settled (settings : Entries Value) (es : Entries Item) : Entries Item :=
  settings.foldl (fun es e => es.put e.1 (.value e.2)) es

/-- Settings go to the map under their key. -/
theorem withSettings_of_map {n m : Nat} {es inner : Entries Item} {key : Atom}
    (hroot : d.root? = some (n, es)) (hmap : d.mapUnder? es key = some (m, inner))
    (settings : Entries Value) :
    d.withSettings key settings = d.setPart m (.map (settled settings inner)) := by
  rw [withSettings, hroot]
  dsimp only
  split
  · rename_i m' inner' h
    have hfound : d.mapUnder? es key = some (m', inner') := h
    rw [hmap] at hfound
    cases hfound
    rfl
  · rename_i h
    have hnone : d.mapUnder? es key = none := h
    rw [hmap] at hnone
    cases hnone

/-- Where there is no map under their key, they get one. -/
theorem withSettings_of_none {n : Nat} {es : Entries Item} {key : Atom}
    (hroot : d.root? = some (n, es)) (hmap : d.mapUnder? es key = none)
    (settings : Entries Value) :
    d.withSettings key settings =
      ⟨(d.parts.setIfInBounds n (.map (es.put key (.part d.parts.size)))).push
        (.map (settled settings [])), d.root⟩ := by
  rw [withSettings, hroot]
  dsimp only
  split
  · rename_i m inner h
    have hsome : d.mapUnder? es key = some (m, inner) := h
    rw [hmap] at hsome
    cases hsome
  · rfl

/-- **Settings that are put into a document show in its value**, though their own map may be the
document itself. -/
theorem find?_withSettings {settings : Entries Value} {key key' : Atom} {v : Value}
    (hmap : d.root?.isSome = true) (hother : ∀ e ∈ settings, e.1.same key = false)
    (hput : ∀ es : Entries Item, (settings.foldl (fun es e => es.put e.1 (Item.value e.2)) es).find?
      key' = some (.value v)) :
    ∃ entries found, (d.withSettings key settings).value = .map entries ∧
      Entries.find? entries key = some (.map found) ∧ Entries.find? found key' = some v := by
  obtain ⟨⟨n, es⟩, hroot?⟩ := Option.isSome_iff_exists.mp hmap
  obtain ⟨hroot, hes⟩ := root?_eq_some_iff.mp hroot?
  have hn : n < d.parts.size := (Array.getElem?_eq_some_iff.mp hes).1
  cases hunder : d.mapUnder? es key with
  | some found =>
    -- the settings have a map of their own
    obtain ⟨m, inner⟩ := found
    obtain ⟨hkey, hinner⟩ := mapUnder?_eq_some_iff.mp hunder
    rw [withSettings_of_map hroot? hunder]
    have hm : m < d.parts.size := (Array.getElem?_eq_some_iff.mp hinner).1
    have hset : (d.setPart m (.map (settled settings inner))).parts[m]? =
        some (.map (settled settings inner)) := by
      rw [setPart, Array.getElem?_setIfInBounds_self_of_lt hm]
    by_cases hsame : m = n
    · -- the document itself is that map
      subst hsame
      rw [hes] at hinner
      cases hinner
      exact find?_value (root?_eq_some_iff.mpr ⟨hroot, hset⟩)
        ((Entries.find?_foldl_put Item.value hother es).trans hkey) hset (hput es)
    · refine find?_value (root?_eq_some_iff.mpr ⟨hroot, ?_⟩) hkey hset (hput inner)
      rw [setPart, Array.getElem?_setIfInBounds_ne hsame]
      exact hes
  | none =>
    -- they get one
    rw [withSettings_of_none hroot? hunder]
    have hsize : (d.parts.setIfInBounds n (.map (es.put key (.part d.parts.size)))).size =
        d.parts.size := Array.size_setIfInBounds
    refine find?_value (m := d.parts.size) (root?_eq_some_iff.mpr ⟨hroot, ?_⟩)
      (Entries.find?_put_self es key _) ?_ (hput [])
    · dsimp only
      rw [Array.getElem?_push_lt (by rwa [hsize]), Array.getElem_setIfInBounds_self]
    · dsimp only
      rw [Array.getElem?_push, if_pos hsize.symm, settled]

end

end Yaml.Document

/-! ## The settings of a command line -/

namespace Cli

section

variable {s : Settings}

theorem key_of_mem_setting {key : Text} {v : Option Value} {e : Atom × Value}
    (h : e ∈ setting key v) : e.1 = .text key := by
  rw [setting, List.mem_map] at h
  obtain ⟨_, -, rfl⟩ := h
  rfl

/-- Other settings, and at last that of a dry run. -/
theorem Settings.overrides_eq (h : s.dryRun = true) :
    ∃ others : Entries Value, s.overrides = others ++ [(.text "dry_run", .bool true)] ∧
      ∀ e ∈ others, e.1.same (.text "dry_run") = false := by
  refine ⟨_, by rw [Settings.overrides, h]; rfl, fun e he => ?_⟩
  simp only [List.mem_append] at he
  rcases he with (((he | he) | he) | he) | he <;> rw [key_of_mem_setting he] <;> decide

/-- The settings alone. -/
theorem Settings.find?_overrides (h : s.dryRun = true) :
    Value.find? s.overrides "dry_run" = some (.bool true) := by
  obtain ⟨others, heq, hothers⟩ := Settings.overrides_eq h
  have hnone : List.find? (fun e : Atom × Value => e.1.same (.text "dry_run")) others = none :=
    List.find?_eq_none.mpr fun e he => Bool.eq_false_iff.mp (hothers e he)
  rw [heq, Value.find?, Entries.find?, List.find?_append, hnone]
  rfl

/-- The settings, put into other data. -/
theorem Settings.find?_overridden {α : Type} (h : s.dryRun = true) (wrap : Value → α)
    (es : Entries α) :
    (s.overrides.foldl (fun es e => es.put e.1 (wrap e.2)) es).find? (.text "dry_run") =
      some (wrap (.bool true)) := by
  obtain ⟨others, heq, -⟩ := Settings.overrides_eq h
  rw [heq, List.foldl_append]
  exact Entries.find?_put_self _ _ _

theorem Settings.not_same_of_mem_overrides {e : Atom × Value} (he : e ∈ s.overrides) :
    e.1.same (.text "config") = false := by
  simp only [Settings.overrides, List.mem_append] at he
  rcases he with ((((he | he) | he) | he) | he) | he <;> rw [key_of_mem_setting he] <;> decide

end

end Cli

/-! ## The configuration under the settings -/

/-- The configuration that is read is that of the map under its key. -/
theorem PlanData.dryRun_of_read {es found : Entries Value} {ps : List Plan} {c : Config} {b : Bool}
    (hconfig : Value.find? es "config" = some (.map found))
    (hfound : Value.find? found "dry_run" = some (.bool b)) (h : PlanData.read es = .ok (ps, c)) :
    c.dryRun = b := by
  have hdata : PlanData.config? es = some (.map found) := by rw [PlanData.config?, hconfig]
  rw [PlanData.read, hdata] at h
  cases hentities : (PlanData.entities es).mapError Failure.plan with
  | error e =>
    rw [hentities] at h
    cases h
  | ok vs =>
    rw [hentities] at h
    cases hplans : PlanData.plans vs with
    | error e =>
      simp only [bind, Except.bind, hplans] at h
      cases h
    | ok qs =>
      simp only [bind, Except.bind, hplans, Option.getD_some] at h
      cases hchecked : Schema.settle "GenerationConfig" (Schema.checkConfig (.map found)) with
      | error e =>
        rw [hchecked] at h
        cases h
      | ok d =>
        rw [hchecked] at h
        cases h
        exact Schema.dryRun_of_checkConfig hfound (Schema.checked_of_settle hchecked)

namespace PlanFile

open Storage Storage.Task

/-- Contents that have been loaded: a document among them is a map. -/
def Contents.IsMap : Contents → Prop
  | .tree _ => True
  | .document d => d.root?.isSome = true

section

variable {σ : Type} {s s' : σ} {w w' : World} {contents : Contents} {p : Path}

/-- What has been read of a text in a format. -/
theorem of_loadAs {P : Contents → Prop} (hjson : ∀ t, jsonContents p t = .ok contents → P contents)
    (hyaml : ∀ t, yamlContents p t = .ok contents → P contents) {format : PlanFormat}
    (h : Yields (loadAs format p) s w contents s' w') : P contents := by
  obtain ⟨t, s₁, w₁, -, h⟩ := Yields.of_bind h
  obtain ⟨hcontents, -, -⟩ := Yields.of_settle h
  have hread : ∀ {r : Except PlanError Contents}, r.mapError Failure.plan = .ok contents →
      r = .ok contents := by
    intro r hr
    cases r with
    | error e => cases hr
    | ok c =>
      cases hr
      rfl
  cases format with
  | json => exact hjson t (hread hcontents)
  | yaml => exact hyaml t (hread hcontents)

/-- **What has been loaded has been read of a text**, in one of the formats. -/
theorem of_load {P : Contents → Prop} (hjson : ∀ t, jsonContents p t = .ok contents → P contents)
    (hyaml : ∀ t, yamlContents p t = .ok contents → P contents)
    (h : Yields (load p) s w contents s' w') : P contents := by
  obtain ⟨there, s₁, w₁, -, h⟩ := Yields.of_bind h
  cases there with
  | false => exact (Yields.of_throw h).elim
  | true =>
    obtain ⟨file, s₂, w₂, -, h⟩ := Yields.of_bind h
    cases file with
    | false => exact (Yields.of_throw h).elim
    | true =>
      simp only [Bool.not_true, Bool.false_eq_true, if_false] at h
      split at h
      · exact of_loadAs hjson hyaml h
      · split at h
        · exact of_loadAs hjson hyaml h
        · obtain ⟨w₃, -, h⟩ := Yields.of_record_bind h
          obtain ⟨r, s₃, w₄, hattempt, h⟩ := Yields.of_bind h
          cases r with
          | ok loaded =>
            obtain ⟨rfl, -, -⟩ := Yields.of_pure h
            exact of_loadAs hjson hyaml (Yields.of_attempt hattempt)
          | error e =>
            dsimp only at h
            split at h
            · exact of_loadAs hjson hyaml h
            · exact (Yields.of_throw h).elim

theorem of_jsonContents {t : Text} (h : jsonContents p t = .ok contents) :
    ∃ es, contents = .tree es := by
  rw [jsonContents] at h
  cases hread : (Json.read t).mapError (planError .json p) with
  | error e =>
    rw [hread] at h
    cases h
  | ok v =>
    rw [hread] at h
    cases v <;> cases h
    exact ⟨_, rfl⟩

/-- A document that has been loaded, and that it is a map. -/
theorem of_yamlContents {t : Text} (h : yamlContents p t = .ok contents) :
    ∃ d, Yaml.Document.read t = .ok d ∧ contents = .document d ∧ d.root?.isSome = true := by
  rw [yamlContents] at h
  cases hread : Yaml.Document.read t with
  | error e =>
    rw [hread] at h
    cases h
  | ok d =>
    rw [hread] at h
    have h : (if d.root?.isSome then Except.ok (.document d)
      else .error (.notAMap .yaml d.value.typeName) : Except PlanError Contents) = .ok contents := h
    split at h
    · rename_i hroot
      cases h
      exact ⟨d, rfl, rfl, hroot⟩
    · cases h

/-- **What has been loaded is a map.** -/
theorem isMap_of_load (h : Yields (load p) s w contents s' w') : contents.IsMap := by
  refine of_load (fun t ht => ?_) (fun t ht => ?_) h
  · obtain ⟨es, rfl⟩ := of_jsonContents ht
    trivial
  · obtain ⟨d, -, rfl, hroot⟩ := of_yamlContents ht
    exact hroot

/-- **Under settings that ask for a dry run, what is read of a plan file is one**, whatever the file
says of it. -/
theorem dryRun_of_withSettings {settings : Cli.Settings} (hdry : settings.dryRun = true)
    (hmap : contents.IsMap) {ps : List Plan} {c : Config}
    (h : PlanData.read (contents.withSettings settings.overrides).entries = .ok (ps, c)) :
    c.dryRun = true := by
  cases contents with
  | tree es =>
    exact PlanData.dryRun_of_read (Entries.find?_put_self es _ _)
      (Cli.Settings.find?_overridden hdry id (Contents.settings es)) h
  | document d =>
    have hother : ∀ e ∈ settings.overrides, e.1.same (.text "config") = false := fun e he =>
      Cli.Settings.not_same_of_mem_overrides he
    obtain ⟨entries, found, hvalue, hfound, hsetting⟩ := Yaml.Document.find?_withSettings hmap hother
      (Cli.Settings.find?_overridden hdry Yaml.Item.value)
    have hentries : (Contents.withSettings settings.overrides (.document d)).entries = entries := by
      rw [Contents.withSettings, Contents.entries, hvalue]
    rw [hentries] at h
    exact PlanData.dryRun_of_read hfound hsetting h

end

end PlanFile

namespace Cli

open Storage Storage.Task

variable {s : Settings}

/-- **A command line that asks for a dry run gets one.** -/
theorem dryRun_of_configOf {c : Config} (h : s.dryRun = true) (hc : configOf s = .ok c) :
    c.dryRun = true :=
  Schema.dryRun_of_checkConfig (Settings.find?_overrides h) (Schema.checked_of_settle hc)

/-- **A plan file that is loaded by such a command line is carried out as a dry run.** -/
theorem dryRun_of_loadPlans {σ : Type} {file : Text} {ps : List Plan} {c : Config} {st st' : σ}
    {w w' : World} (h : s.dryRun = true)
    (hload : Yields (loadPlans s file) st w (ps, c) st' w') : c.dryRun = true := by
  obtain ⟨contents, s₁, w₁, hcontents, hread⟩ := Yields.of_bind hload
  obtain ⟨w₂, -, hread⟩ := Yields.of_recordAll_bind hread
  obtain ⟨hdata, -, -⟩ := Yields.of_settle hread
  exact PlanFile.dryRun_of_withSettings h (PlanFile.isMap_of_load hcontents) hdata

end Cli

end EntityScaffold
