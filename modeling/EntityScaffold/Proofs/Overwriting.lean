import EntityScaffold.Proofs.Histories

/-!
# Accessors that are overwritten

Accessors of several properties may have one name, but for letter case: those of collections go by
their targets.  The call that comes last has the method.

* `Coherent.session` — a session with names that are accepted keeps the members in agreement.
* `mem_methods_session` — which methods stay.
* `Coherent.last_accessor` — the last call that generates an accessor of a name has it.
* `own_accessors_of_new_entity` — calls whose accessors differ in name all have their own.
-/

set_option autoImplicit false

namespace EntityScaffold

open Text Source Edit

/-- A call with plain names that are accepted. -/
def Call.Fits (c : Call) : Prop := c.HasPlainNames ∧ c.IsAccepted

/-- The properties that calls define, and what they define them as. -/
def planned (calls : List Call) : List (Text × Definition) := calls.filterMap Call.defines?

section

variable {table : Definitions} {f : ClassFile} {i : Text} {calls : List Call}

/-- **A call with names that are accepted defines a property anew.** -/
theorem Coherent.apply (h : Coherent table f) (hi : IsIndent i) {call : Call} (hfits : call.Fits) :
    ∃ e, call.defines? = some e ∧ Redefines i table e.1 e.2 f (call.apply i f) :=
  h.redefines (d := ⟨f, []⟩) hi hfits.1
    (Regular.call_succeeds (d := ⟨f, []⟩) h.regular hi hfits.1 hfits.2)

/-- **A session keeps the members in agreement.** -/
theorem Coherent.session (h : Coherent table f) (hi : IsIndent i)
    (hfits : ∀ c ∈ calls, c.Fits) :
    Coherent (calls.foldl Definitions.after table) (session i calls f) := by
  induction calls generalizing table f with
  | nil => exact h
  | cons call calls ih =>
    obtain ⟨e, he, hredefines⟩ := h.apply hi (hfits call List.mem_cons_self)
    refine ih ?_ fun c hc => hfits c (List.mem_cons_of_mem call hc)
    rw [Definitions.after_of_defines? he]
    exact hredefines.coherent

/-- What a session does not define is defined as before. -/
theorem after_of_notMem {name : Text} (h : name ∉ (planned calls).map Prod.fst) :
    calls.foldl Definitions.after table name = table name := by
  induction calls generalizing table with
  | nil => rfl
  | cons call calls ih =>
    rw [List.foldl_cons]
    cases hd : call.defines? with
    | none =>
      rw [planned, List.filterMap_cons_none hd] at h
      rw [ih h, Definitions.after, hd]
      rfl
    | some e =>
      rw [planned, List.filterMap_cons_some hd, List.map_cons, List.mem_cons, not_or] at h
      rw [ih h.2, Definitions.after_of_defines? hd, Function.update_of_ne h.1]

/-- **A method stays** unless a call generates one of its name, or does away with a definition that
did. -/
theorem mem_methods_session (h : Coherent table f) (hi : IsIndent i)
    (hfits : ∀ c ∈ calls, c.Fits) {m : Method} (hm : m ∈ f.methods)
    (hconstructor : m.isConstructor = false)
    (hnew : ∀ e ∈ planned calls, m.key ∉ (e.2.accessorNames e.1).map lower)
    (hold : ∀ e ∈ planned calls, ∀ old, table e.1 = some old →
      m.key ∉ (old.accessorNames e.1).map lower) :
    m ∈ (EntityScaffold.session i calls f).methods := by
  induction calls generalizing table f with
  | nil => exact hm
  | cons call calls ih =>
    obtain ⟨e, he, hredefines⟩ := h.apply hi (hfits call List.mem_cons_self)
    rw [planned, List.filterMap_cons_some he] at hnew hold
    have hstays : m ∈ (call.apply i f).methods :=
      (hredefines.mem_methods hconstructor).mpr (.inr ⟨hm, hnew e List.mem_cons_self,
        hold e List.mem_cons_self⟩)
    refine ih hredefines.coherent (fun c hc => hfits c (List.mem_cons_of_mem call hc)) hstays
      (fun e' he' => hnew e' (List.mem_cons_of_mem e he')) fun e' he' old hdefined => ?_
    by_cases hname : e'.1 = e.1
    · -- the definition that is done away with is that of the first call
      rw [hname, Function.update_self] at hdefined
      cases hdefined
      rw [hname]
      exact hnew e List.mem_cons_self
    · rw [Function.update_of_ne hname] at hdefined
      exact hold e' (List.mem_cons_of_mem e he') old hdefined

/-- **The last call that generates an accessor of a name has it.**  No other method has the
name. -/
theorem Coherent.last_accessor (h : Coherent table f) (hi : IsIndent i) {before after : List Call}
    {call : Call} (hfits : ∀ c ∈ before ++ call :: after, c.Fits)
    (hnames : ((planned (before ++ call :: after)).map Prod.fst).Nodup) {property : Text}
    {d : Definition} (hdefines : call.defines? = some (property, d)) {a : Accessor}
    (ha : a ∈ d.accessors property)
    (hnew : ∀ e ∈ planned after, lower a.name ∉ (e.2.accessorNames e.1).map lower)
    (hold : ∀ e ∈ planned after, ∀ old, table e.1 = some old →
      lower a.name ∉ (old.accessorNames e.1).map lower) :
    ∀ m, m ∈ (EntityScaffold.session i (before ++ call :: after) f).methods ∧
      lower m.name = lower a.name ↔ m = a.method i := by
  have hbefore := h.session hi fun c hc => hfits c (List.mem_append_left _ hc)
  obtain ⟨e, he, hredefines⟩ := hbefore.apply hi (hfits call (by simp))
  cases hdefines.symm.trans he
  have hafter : ∀ c ∈ after, c.Fits := fun c hc => hfits c (by simp [hc])
  have hconstructor : (a.method i).isConstructor = false := a.not_isConstructor i
  -- later calls define other properties than those before
  have hfresh : ∀ e ∈ planned after, e.1 ∉ (planned before).map Prod.fst ∧ e.1 ≠ property := by
    have hsplit : planned (before ++ call :: after) =
        planned before ++ (property, d) :: planned after := by
      rw [planned, List.filterMap_append, List.filterMap_cons_some hdefines]
      rfl
    rw [hsplit, List.map_append, List.map_cons, List.nodup_append] at hnames
    obtain ⟨-, hrest, hdisjoint⟩ := hnames
    intro e he
    have hm := List.mem_map_of_mem (f := Prod.fst) he
    exact ⟨fun hb => hdisjoint _ hb _ (List.mem_cons_of_mem _ hm) rfl,
      fun heq => (List.nodup_cons.mp hrest).1 (heq ▸ hm)⟩
  have hsession : EntityScaffold.session i (before ++ call :: after) f =
      EntityScaffold.session i after (call.apply i (EntityScaffold.session i before f)) :=
    session_append i before (call :: after) f
  have hmem : a.method i ∈ (EntityScaffold.session i (before ++ call :: after) f).methods := by
    rw [hsession]
    refine mem_methods_session hredefines.coherent hi hafter
      ((hredefines.mem_methods hconstructor).mpr (.inl ⟨a, ha, rfl⟩)) hconstructor hnew
      fun e he old hdefined => hold e he old ?_
    rwa [Function.update_of_ne (hfresh e he).2, after_of_notMem (hfresh e he).1] at hdefined
  intro m
  constructor
  · rintro ⟨hm, hname⟩
    exact List.inj_on_of_nodup_map (h.session hi hfits).methods hm hmem hname
  · rintro rfl
    exact ⟨hmem, rfl⟩

end

/-! ## New entities -/

theorem Definition.getterName_mem (d : Definition) (property : Text) :
    Render.getterName property ∈ d.accessorNames property := by
  cases d <;> simp [accessorNames, accessors, fieldAccessors, referenceAccessors,
    collectionAccessors, Accessor.name]

/-- Properties whose setters have one name have getters of one name. -/
theorem lower_getterName_eq {p q : Text} (hp : Plain p) (hq : Plain q)
    (h : lower (Render.setterName p) = lower (Render.setterName q)) :
    lower (Render.getterName p) = lower (Render.getterName q) := by
  have hlower : ∀ {s t : Text}, Plain s → Plain t → lower (s ++ upperFirst t) =
      s.map asciiLower ++ (upperFirst t).map asciiLower := by
    intro s t hs ht
    rw [lower_of_ascii fun c hc => toNat_lt_of_isAsciiWord ((hs.append (plain_upperFirst ht)) c hc),
      List.map_append]
  have hget : Plain "get" := by decide
  have hset : Plain "set" := by decide
  rw [Render.setterName, Render.setterName, hlower hset hp, hlower hset hq] at h
  rw [Render.getterName, Render.getterName, hlower hget hp, hlower hget hq,
    List.append_cancel_left h]

/-- What sets the property of a definition is its setter. -/
theorem Definition.name_of_initial {d : Definition} {property : Text} {a : Accessor}
    (ha : a ∈ d.accessors property) (h : a.initial = 's') :
    a.name = Render.setterName property := by
  cases d with
  | field type =>
    simp only [accessors, fieldAccessors, List.mem_cons, List.not_mem_nil, or_false] at ha
    rcases ha with rfl | rfl
    · cases h
    · rfl
  | reference target =>
    simp only [accessors, referenceAccessors, List.mem_cons, List.not_mem_nil, or_false] at ha
    rcases ha with rfl | rfl | rfl
    · cases h
    · rfl
    · cases h
  | collection target =>
    simp only [accessors, collectionAccessors, List.mem_cons, List.not_mem_nil, or_false] at ha
    rcases ha with rfl | rfl | rfl <;> cases h

/-- **Calls on a new entity whose accessors differ in name all have their own.**  No call replaces
an accessor of another one or does away with it. -/
theorem own_accessors_of_new_entity {c : Config} {name : Text} {ns : Option Text}
    (h : PlainStub c name ns) (path : Option Text) :
    ∃ f, ClassFile.parse (Render.entityStub c name ns) path = .ok f ∧
      ∀ calls : List Call, (∀ call ∈ calls, call.Fits) → ((planned calls).map Prod.fst).Nodup →
        (planned calls).Pairwise (fun e e' => ∀ a ∈ e.2.accessorNames e.1,
          ∀ b ∈ e'.2.accessorNames e'.1, lower a ≠ lower b) →
        ∀ e ∈ planned calls, ∀ a ∈ e.2.accessors e.1, ∀ m : Method,
          m ∈ (session c.indent calls f).methods ∧ lower m.name = lower a.name ↔
            m = a.method c.indent := by
  refine ⟨_, parse_entityStub h path, fun calls hfits hnames hdistinct e he a ha => ?_⟩
  have hcoherent := (History.stub h (parse_entityStub h path)).coherent
  obtain ⟨call, hcall, hdefines⟩ := List.mem_filterMap.mp he
  obtain ⟨before, after, rfl⟩ := List.append_of_mem hcall
  have hsplit : planned (before ++ call :: after) = planned before ++ e :: planned after := by
    rw [planned, List.filterMap_append, List.filterMap_cons_some hdefines]
    rfl
  rw [hsplit, List.pairwise_append, List.pairwise_cons] at hdistinct
  have hlater := hdistinct.2.1.1
  have hname : a.name ∈ e.2.accessorNames e.1 := List.mem_map_of_mem ha
  refine hcoherent.last_accessor (isIndent_config c) hfits hnames hdefines ha (fun e' he' hm => ?_)
    fun e' he' old hold hm => ?_
  · obtain ⟨b, hb, heq⟩ := List.mem_map.mp hm
    exact hlater e' he' _ hname b hb heq.symm
  · -- the key of the new entity is defined anew, and what wrote it goes
    obtain ⟨hid, rfl⟩ := Definitions.initial_eq_some hold
    have hgetter := e'.2.getterName_mem e'.1
    have hnames : lower a.name = lower (Render.getterName e'.1) ∨
        lower a.name = lower (Render.setterName e'.1) := by
      simpa [Definition.accessorNames, Definition.accessors, fieldAccessors, Accessor.name] using hm
    rcases hnames with heq | heq
    · exact hlater e' he' _ hname _ hgetter heq
    · obtain ⟨d, hd, hredefines⟩ := hcoherent.apply (isIndent_config c)
        (hfits call (by simp))
      cases hdefines.symm.trans hd
      obtain ⟨p, -, hp, hdeclared⟩ := hredefines.coherent.declaredAs (Function.update_self _ _ _)
      rw [← hp] at ha
      have hfirst := a.head?_lower_name
      rw [heq, hid] at hfirst
      have hsetter := Definition.name_of_initial ha (Option.some.inj hfirst).symm
      rw [hsetter, hid] at heq
      have hsame := lower_getterName_eq hdeclared.name.plain (by decide : Plain "id") heq
      rw [hp, ← hid] at hsame
      exact hlater e' he' _ (e.2.getterName_mem e.1) _ hgetter hsame

end EntityScaffold
