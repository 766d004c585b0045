import EntityScaffold.Proofs.Documents

/-!
# Plan files that are read with and without settings

`apply` and `validate` put the settings of their command line into the configuration of a plan file,
which gets a map under `config` even if there are no settings.  A file that is read without any keeps
what it has there.  The two readings differ for exactly those files whose plans are accepted and which
have something under `config` that is neither nothing nor a map: the one overlooks it, and the other
rejects it.

* `PlanData.HasMap` — nothing or a map stands under `config`.
* `PlanData.alike_put_settings_iff` — data, and data with a map for the configuration.
* `Contents.alike_put_settings` — contents under no settings are read as what they show, with a map for
  the configuration.
* `loadPlans_alike_iff` — where the two readings of a plan file agree.
-/

set_option autoImplicit false

namespace EntityScaffold

open Text

namespace PlanData

open Schema PlanFile.Contents

variable {es : Entries Value}

/-- Whether nothing or a map stands under the key of the configuration. -/
def HasMap (es : Entries Value) : Prop := ∀ v, config? es = some v → ∃ m, v = .map m

theorem hasMap_of_find? {m : Entries Value} (h : Value.find? es "config" = some (.map m)) :
    HasMap es := by
  intro v hv
  rw [config?, h] at hv
  cases hv
  exact ⟨m, rfl⟩

theorem settings_of_find? {m : Entries Value} (h : Value.find? es "config" = some (.map m)) :
    settings es = m := by
  rw [settings, h]

/-- There are no settings where no map is found. -/
theorem settings_eq_nil (h : ∀ m, Value.find? es "config" ≠ some (.map m)) : settings es = [] := by
  rw [settings]
  split
  · rename_i m hm
    exact absurd hm (h m)
  · rfl

/-- Where there is no map, what stands there is what is taken for the configuration. -/
theorem config?_of_not_hasMap (h : ¬ HasMap es) :
    ∃ v, config? es = some v ∧ ∀ m, v ≠ .map m := by
  by_contra hnone
  refine h fun v hv => ?_
  by_contra hmap
  exact hnone ⟨v, hv, fun m hm => hmap ⟨m, hm⟩⟩

theorem config_of_hasMap (h : HasMap es) : (config? es).getD (.map []) = .map (settings es) := by
  cases hconfig : config? es with
  | some v =>
    obtain ⟨m, rfl⟩ := h v hconfig
    have hfind : Value.find? es "config" = some (.map m) := by
      rw [config?] at hconfig
      split at hconfig
      · cases hconfig
      · cases hconfig
      · rename_i hv
        rw [hv, hconfig]
    rw [settings_of_find? hfind]
    rfl
  | none =>
    rw [settings_eq_nil fun m hm => ?_]
    · rfl
    · rw [config?, hm] at hconfig
      cases hconfig

theorem config?_put (m : Entries Value) :
    config? (es.put (.text "config") (.map m)) = some (.map m) := by
  rw [config?, Value.find?, Entries.find?_put_self]

/-- Other names are found as before. -/
theorem find?_put_config {name : Text} (hname : name ≠ "config") (v : Value) :
    Value.find? (es.put (.text "config") v) name = Value.find? es name :=
  Entries.find?_put_of_not_same v (same_text_eq_false hname.symm)

theorem entities_put_config (v : Value) : entities (es.put (.text "config") v) = entities es := by
  rw [entities, entities, find?_put_config (by decide), find?_put_config (by decide)]

/-- A map for the configuration makes no difference where there is one, or nothing. -/
theorem read_put_settings (h : HasMap es) :
    read (es.put (.text "config") (.map (settings es))) = read es := by
  rw [read, read, entities_put_config, config?_put, config_of_hasMap h]
  rfl

/-- The plans of data, whatever their configuration. -/
def plansOf (es : Entries Value) : Except Failure (List Plan) :=
  (entities es).mapError .plan >>= plans

theorem read_eq (es : Entries Value) : read es = plansOf es >>= fun ps =>
    (settle "GenerationConfig" (checkConfig ((config? es).getD (.map [])))).mapError
      (inPlan .config) >>= fun c => pure (ps, c) := by
  rw [read, plansOf, bind_assoc]

/-- **Anything else than a map is rejected**, if the plans are accepted. -/
theorem read_of_not_hasMap (h : ¬ HasMap es) {ps : List Plan} (hplans : plansOf es = .ok ps) :
    ∃ r, read es = .error (.plan (.config r)) := by
  obtain ⟨v, hv, hmap⟩ := config?_of_not_hasMap h
  rw [read_eq, hplans, hv]
  cases v with
  | map m => exact absurd rfl (hmap m)
  | _ => exact ⟨_, rfl⟩

/-- **It is overlooked** where it gives way to a map. -/
theorem read_put_nil {ps : List Plan} (hplans : plansOf es = .ok ps) :
    read (es.put (.text "config") (.map [])) = .ok (ps, {}) := by
  have hsame : plansOf (es.put (.text "config") (.map [])) = .ok ps := by
    rw [plansOf, entities_put_config]
    exact hplans
  rw [read_eq, hsame, config?_put]
  rfl

/-- What does not come to plans fails alike under any configuration. -/
theorem read_of_plansOf_error {e : Failure} (h : plansOf es = .error e) : read es = .error e := by
  rw [read_eq, h]
  rfl

/-- **Data, and data with a map for their configuration**, are read alike unless the one is rejected
for what the other overlooks. -/
theorem alike_put_settings_iff :
    Alike (read es) (read (es.put (.text "config") (.map (settings es)))) ↔
      HasMap es ∨ ∀ r, read (es.put (.text "config") (.map (settings es))) ≠ .ok r := by
  by_cases hmap : HasMap es
  · rw [read_put_settings hmap]
    exact iff_of_true (.refl _) (.inl hmap)
  obtain ⟨v, hv, hnot⟩ := config?_of_not_hasMap hmap
  have hnone : settings es = [] := settings_eq_nil fun m hm => hmap (hasMap_of_find? hm)
  rw [hnone]
  cases hplans : plansOf es with
  | ok ps =>
    obtain ⟨r, hrejected⟩ := read_of_not_hasMap hmap hplans
    rw [hrejected, read_put_nil hplans]
    refine iff_of_false (fun h => ?_) fun h => ?_
    · cases (h.value _).mpr rfl
    · rcases h with h | h
      · exact hmap h
      · exact h _ rfl
  | error e =>
    have hsame : plansOf (es.put (.text "config") (.map [])) = .error e := by
      rw [plansOf, entities_put_config]
      exact hplans
    rw [read_of_plansOf_error hplans, read_of_plansOf_error hsame]
    refine iff_of_true (.refl _) (.inr fun r h => ?_)
    cases h

/-- A list in place of a configuration is overlooked by the one reading only. -/
example : let es : Entries Value := [(.text "entity", .map [(.text "name", .text "Post")]),
      (.text "config", .list [])]
    (∃ r, read es = .error (.plan (.config r))) ∧
      ∃ ps, read (es.put (.text "config") (.map (settings es))) = .ok (ps, {}) :=
  ⟨⟨_, rfl⟩, _, rfl⟩

theorem Alike.trans {α : Type} {r r' r'' : Except Failure α} (h : Alike r r') (h' : Alike r' r'') :
    Alike r r'' :=
  ⟨fun a => (h.value a).trans (h'.value a), h.plan.trans h'.plan⟩

theorem Alike.symm {α : Type} {r r' : Except Failure α} (h : Alike r r') : Alike r' r :=
  ⟨fun a => (h.value a).symm, h.plan.symm⟩

end PlanData

/-! ## Contents -/

namespace PlanFile

open PlanData Storage Storage.Task Yaml.Document

/-- Contents that have been loaded: a document among them refers to its own collections. -/
def Contents.IsClosed : Contents → Prop
  | .tree _ => True
  | .document d => d.Closed

theorem isClosed_of_load {σ : Type} {s s' : σ} {w w' : World} {contents : Contents} {p : Path}
    (h : Yields (load p) s w contents s' w') : contents.IsClosed := by
  refine of_load (fun t ht => ?_) (fun t ht => ?_) h
  · obtain ⟨es, rfl⟩ := of_jsonContents ht
    trivial
  · obtain ⟨d, hread, rfl, -⟩ := of_yamlContents ht
    exact closed_of_read hread

namespace Contents

/-- **Contents under no settings are read as what they show**, with a map for the configuration. -/
theorem alike_put_settings {contents : Contents} (hmap : contents.IsMap)
    (hclosed : contents.IsClosed) :
    Alike (PlanData.read (contents.entries.put (.text "config") (.map (settings contents.entries))))
      (PlanData.read (contents.withSettings []).entries) := by
  cases contents with
  | tree es => exact .refl _
  | document d =>
    obtain ⟨⟨n, es⟩, hroot⟩ := Option.isSome_iff_exists.mp hmap
    have hentries : (Contents.document d).entries = d.known (d.parts.size + 7) es := by
      rw [Contents.entries, value_of_root? hroot]
    have hitem : ∀ {name i}, es.find? (.text name) = some i → i.Within d.parts.size := fun h =>
      hclosed.parts n _ (root?_eq_some_iff.mp hroot).2 _ (mem_of_find? h)
    rw [hentries, Contents.withSettings]
    cases hunder : d.mapUnder? es (.text "config") with
    | some found =>
      -- the document stays as it is
      obtain ⟨m, inner⟩ := found
      obtain ⟨hkey, hinner⟩ := mapUnder?_eq_some_iff.mp hunder
      rw [withSettings_nil_of_map hroot hunder, hentries, read_put_settings]
      · exact .refl _
      · refine hasMap_of_find? (m := d.known (d.parts.size + 6) inner) ?_
        rw [Value.find?, find?_known, hkey, Option.map_some, itemValue_part hinner, partValue_map]
    | none =>
      have hextends := extends_withSettings_nil hroot hunder
      have hsettings : settings (d.known (d.parts.size + 7) es) = [] := by
        refine settings_eq_nil fun m hm => ?_
        rw [Value.find?, find?_known] at hm
        obtain ⟨i, hi, hvalue⟩ := Option.map_eq_some_iff.mp hm
        obtain ⟨k, inner, rfl, hinner⟩ := isMap_of_itemValue (hitem hi) hvalue
        rw [mapUnder?_eq_some_iff.mpr ⟨hi, hinner⟩] at hunder
        cases hunder
      have hentries' : (Contents.document (d.withSettings (.text "config") [])).entries =
          (d.withSettings (.text "config") []).known (d.parts.size + 8)
            (es.put (.text "config") (.part d.parts.size)) := by
        rw [Contents.entries, value_of_root? hextends.new, hextends.size]
      -- as many levels deep as there are collections, and more
      have hsimilar : ∀ name : Text, name ≠ "config" → name = "entities" ∨ name = "entity" →
          Option.Rel (Schema.Similar (d.parts.size + 1 + 6))
            (Value.find? ((d.known (d.parts.size + 7) es).put (.text "config") (.map [])) name)
            (Value.find? ((d.withSettings (.text "config") []).known (d.parts.size + 8)
              (es.put (.text "config") (.part d.parts.size))) name) := by
        intro name hname hplans
        rw [PlanData.find?_put_config hname, Value.find?, Value.find?, find?_known, find?_known,
          Yaml.Document.find?_put_config hname]
        cases hfind : es.find? (.text name) with
        | none => exact .none
        | some i =>
          have hhas : HasPlans es := by
            rcases hplans with rfl | rfl
            · exact .inl (by rw [hfind]; rfl)
            · exact .inr (by rw [hfind]; rfl)
          exact .some (hextends.similar hclosed hhas (by omega) (by omega) (hitem hfind))
      rw [hsettings, hentries']
      refine alike_read (hsimilar _ (by decide) (.inl rfl)) (hsimilar _ (by decide) (.inr rfl)) ?_
      rw [config?_put, PlanData.config?, Value.find?, find?_known, Entries.find?_put_self, Option.map_some,
        itemValue_part hextends.added]
      rfl

/-- **Contents are read alike under no settings** unless the one reading is rejected for what stands
in place of a configuration, and the other overlooks it. -/
theorem alike_withSettings_nil_iff {contents : Contents} (hmap : contents.IsMap)
    (hclosed : contents.IsClosed) :
    Alike (PlanData.read contents.entries) (PlanData.read (contents.withSettings []).entries) ↔
      HasMap contents.entries ∨ ∀ r, PlanData.read (contents.withSettings []).entries ≠ .ok r := by
  have hput := alike_put_settings hmap hclosed
  have hsame : (∀ r, PlanData.read (contents.withSettings []).entries ≠ .ok r) ↔
      ∀ r, PlanData.read (contents.entries.put (.text "config")
        (.map (settings contents.entries))) ≠ .ok r :=
    forall_congr' fun r => not_congr (hput.value r).symm
  rw [hsame, ← alike_put_settings_iff]
  exact ⟨fun h => h.trans hput.symm, fun h => h.trans hput⟩

end Contents

end PlanFile

/-! ## Plan files -/

namespace PlanFile

open Storage Storage.Task

variable {tree : Tree} {p : Path}

/-- What generation without settings reads of a plan file is what reading comes to: where that fails,
generation fails so. -/
theorem generate_nil_of_read_error {h : Generation.Host} {e : Failure}
    (hread : Comes tree (load p >>= read : Task Written (List Plan × Config)) (.error e)) :
    Comes tree (generate h p []) (.error e) := by
  obtain ⟨loaded, hload⟩ : OnlyLooks tree (load p : Task Written Contents) := onlyLooks_load p
  cases loaded with
  | error e' =>
    cases hread.unique hload.bind_error
    exact hload.bind_error
  | ok contents =>
    have hdata : Comes tree (read contents : Task Written (List Plan × Config))
        (PlanData.read contents.entries) := (Comes.recordAll _).bind_ok (.settle _)
    rw [← hread.unique (hload.bind_ok hdata)] at hdata
    exact hload.bind_ok hdata.bind_error

end PlanFile

namespace Cli

open PlanFile Storage Storage.Task

variable {tree : Tree} {s : Settings}

/-- **Where a plan file is read alike** by a command line without settings and by a reader that has
none: nowhere but for files with something else than a map in place of a configuration, which the
command line overlooks. -/
theorem loadPlans_alike_iff (hs : s.overrides = []) (file : Text) :
    ∃ r r', Comes tree (loadPlans s file : Task Written (List Plan × Config)) r ∧
      Comes tree (load (.ofText file) >>= PlanFile.read : Task Written (List Plan × Config)) r' ∧
      (PlanData.Alike r' r ↔
        ∀ contents, Comes tree (load (.ofText file) : Task Written Contents) (.ok contents) →
          PlanData.HasMap contents.entries ∨ ∀ a, r ≠ .ok a) := by
  obtain ⟨loaded, hload⟩ : OnlyLooks tree (load (.ofText file) : Task Written Contents) :=
    onlyLooks_load _
  cases loaded with
  | error e =>
    refine ⟨_, _, hload.bind_error, hload.bind_error, iff_of_true (.refl _) fun contents h => ?_⟩
    cases hload.unique h
  | ok contents =>
    have hread : ∀ contents : Contents,
        Comes tree (PlanFile.read contents : Task Written (List Plan × Config))
          (PlanData.read contents.entries) := fun contents =>
      (Comes.recordAll _).bind_ok (.settle _)
    refine ⟨_, _, hload.bind_ok (hread _), hload.bind_ok (hread _), ?_⟩
    obtain ⟨w, hrun, -⟩ := hload default { tree := tree } rfl
    rw [hs, Contents.alike_withSettings_nil_iff (isMap_of_load hrun) (isClosed_of_load hrun)]
    refine ⟨fun h contents' h' => ?_, fun h => h contents hload⟩
    cases hload.unique h'
    exact h

end Cli

end EntityScaffold
