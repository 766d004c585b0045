import EntityScaffold.Proofs.Lookalikes
import EntityScaffold.Proofs.ReadNodes

/-!
# Documents that have been read, and under no settings

A document that has been read refers to its own collections: a collection has the number of its node,
merging brings in no entry that no node has, and so every collection that a member refers to is there.

Where the root of a document has no map under a key, settings get a new one there, even if there are
none.  The collections are the same but for the root, and the root is found among them only where it
holds itself.  So whatever is read a few levels deep and is no map with plans looks the same.

* `Document.Closed` — the collections that a document refers to are its own.
* `Makes` — what holds of a step of making collections that succeeds; one lemma for each way of putting
  steps together.
* `makes_merged_allEntries`, `makes_item`, `makes_partOf` — the members that are made refer to
  collections that are there.
* `Document.closed_of_read` — a document that has been read is closed.
* `Document.Extends` — a document that is another one with a new map under a key of its root.
* `Document.Extends.similar` — every part of it looks the same.
* `Document.withSettings_nil_of_map`, `Document.extends_withSettings_nil` — a document under no settings
  is the same, or so extended.
-/

set_option autoImplicit false

namespace EntityScaffold

open Text

namespace Entries

variable {α : Type} {P : α → Prop}

theorem forall_mem_put {es : Entries α} (h : ∀ e ∈ es, P e.2) (key : Atom) {a : α} (ha : P a) :
    ∀ e ∈ es.put key a, P e.2 := by
  induction es with
  | nil => exact List.forall_mem_singleton.mpr ha
  | cons e more ih =>
    obtain ⟨he, hmore⟩ := List.forall_mem_cons.mp h
    rw [put]
    split
    · exact List.forall_mem_cons.mpr ⟨ha, hmore⟩
    · exact List.forall_mem_cons.mpr ⟨he, ih hmore⟩

theorem forall_mem_ofList {es : List (Atom × α)} (h : ∀ e ∈ es, P e.2) : ∀ e ∈ ofList es, P e.2 :=
  List.foldlRecOn (motive := fun es : Entries α => ∀ e ∈ es, P e.2) es _
    (fun _ h => absurd h List.not_mem_nil) fun _ hold e he => forall_mem_put hold e.1 (h e he)

end Entries

namespace Yaml

/-! ## Documents that refer to their own collections -/

/-- The collections of a member are among the first `size`, and its values are atoms. -/
def Item.Within (size : Nat) : Item → Prop
  | .value v => ∃ a, v = .atom a
  | .part n => n < size
  | .pair first second => first.Within size ∧ second.Within size

namespace Document

/-- The collections that a document refers to are its own. -/
structure Closed (d : Document) : Prop where
  root : d.root.Within d.parts.size
  parts : ∀ (n : Nat) (p : Part), d.parts[n]? = some p → ∀ i ∈ p.items, i.Within d.parts.size

variable {d : Document}

/-- What shows as a map is a collection that is one. -/
theorem isMap_of_itemValue {k : Nat} {i : Item} (hi : i.Within d.parts.size) {m : Entries Value}
    (h : (itemValue (d.levels (k + 1)) i).1 = .map m) :
    ∃ n es, i = .part n ∧ d.parts[n]? = some (.map es) := by
  cases i with
  | value v =>
    obtain ⟨a, rfl⟩ := hi
    cases h
  | pair first second => cases h
  | part n =>
    obtain ⟨p, hp⟩ : ∃ p, d.parts[n]? = some p := ⟨_, Array.getElem?_eq_getElem hi⟩
    rw [itemValue_part hp] at h
    cases p with
    | map es => exact ⟨n, es, rfl, hp⟩
    | list items => cases h
    | set members => cases h

end Document

/-! ## Collections -/

/-- What is being made of so many nodes: what is held is there. -/
structure Making.Sound (size : Nat) (m : Making) : Prop where
  size_nodes : m.nodes.size = size
  nodes : NodesWithin size m.nodes
  size_parts : m.parts.size = size
  parts : ∀ (n : Nat) (p : Part), m.parts[n]? = some (some p) → ∀ i ∈ p.items, i.Within size

/-- A node that is changed holds what it may hold. -/
theorem Making.Sound.modifyNode {size : Nat} {m : Making} (hm : m.Sound size) {f : Node → Node}
    (hf : ∀ node, node.content.Within size → (f node).content.Within size) (n : Nat) :
    Making.Sound size { m with nodes := m.nodes.modify n f } := by
  refine ⟨(Array.size_modify ..).trans hm.size_nodes, fun k node hk => ?_, hm.size_parts, hm.parts⟩
  dsimp only at hk
  rw [Array.getElem?_modify] at hk
  split at hk
  · obtain ⟨old, hold, rfl⟩ := Option.map_eq_some_iff.mp hk
    exact hf old (hm.nodes k old hold)
  · exact hm.nodes k node hk

/-- A collection gets its members. -/
theorem Making.Sound.setPart {size : Nat} {m : Making} (hm : m.Sound size) (n : Nat) {p : Part}
    (hp : ∀ i ∈ p.items, i.Within size) {waiting : List Nat} :
    Making.Sound size { m with parts := m.parts.setIfInBounds n (some p), waiting := waiting } := by
  refine ⟨hm.size_nodes, hm.nodes, Array.size_setIfInBounds.trans hm.size_parts,
    fun k q hk => ?_⟩
  dsimp only at hk
  rw [Array.getElem?_setIfInBounds] at hk
  split at hk
  · split at hk
    · cases hk
      exact hp
    · cases hk
  · exact hm.parts k q hk

section

variable {α β : Type} {size : Nat} {post : α → Prop}

/-- From what is being made of so many nodes, the step comes to something of which `post` holds. -/
def Makes (size : Nat) (post : α → Prop) (x : Make α) : Prop :=
  ∀ m a m', m.Sound size → x.run m = .ok (a, m') → m'.Sound size ∧ post a

theorem Makes.pure {a : α} (h : post a) : Makes size post (pure a) := by
  intro m b m' hm hrun
  cases hrun
  exact ⟨hm, h⟩

theorem Makes.malformed : Makes size post Make.malformed := by
  intro m b m' hm hrun
  cases hrun

theorem Makes.bind {x : Make α} {f : α → Make β} {post' : β → Prop} (hx : Makes size post x)
    (hf : ∀ a, post a → Makes size post' (f a)) : Makes size post' (x >>= f) := by
  intro m b m' hm hrun
  obtain ⟨a, m₁, hrun₁, hrun₂⟩ := of_run_bind hrun
  obtain ⟨hm₁, ha⟩ := hx m a m₁ hm hrun₁
  exact hf a ha m₁ b m' hm₁ hrun₂

theorem Makes.get : Makes size (Making.Sound size) get := by
  intro m b m' hm hrun
  cases hrun
  exact ⟨hm, hm⟩

theorem Makes.modify {f : Making → Making} (hf : ∀ m, m.Sound size → (f m).Sound size) :
    Makes size (fun _ => True) (modify f) := by
  intro m b m' hm hrun
  cases hrun
  exact ⟨hf m hm, trivial⟩

/-- What is known without looking at what is made. -/
theorem Makes.lift {x : Except Misreading α} (h : ∀ a, x = .ok a → post a) :
    Makes size post (liftM x : Make α) := by
  intro m b m' hm hrun
  cases x with
  | error e => cases hrun
  | ok a =>
    cases hrun
    exact ⟨hm, h _ rfl⟩

theorem Makes.mapM {xs : List α} {f : α → Make β} {post : β → Prop}
    (hf : ∀ a ∈ xs, Makes size post (f a)) : Makes size (fun bs => ∀ b ∈ bs, post b) (xs.mapM f) := by
  induction xs with
  | nil => exact .pure fun _ h => absurd h List.not_mem_nil
  | cons a more ih =>
    rw [List.mapM_cons]
    refine (hf a List.mem_cons_self).bind fun b hb =>
      (ih fun a ha => hf a (List.mem_cons_of_mem _ ha)).bind fun bs hbs => .pure ?_
    exact List.forall_mem_cons.mpr ⟨hb, hbs⟩

theorem Makes.forM {xs : List α} {f : α → Make Unit}
    (hf : ∀ a ∈ xs, Makes size (fun _ => True) (f a)) :
    Makes size (fun _ => True) (xs.forM f) := by
  induction xs with
  | nil => exact .pure trivial
  | cons a more ih =>
    exact (hf a List.mem_cons_self).bind fun _ _ => ih fun a ha => hf a (List.mem_cons_of_mem _ ha)

end

namespace Make

variable {size : Nat}

theorem makes_nodeOf (n : Nat) : Makes size (fun node => node.content.Within size) (nodeOf n) := by
  refine Makes.get.bind fun m hm => .pure ?_
  rw [Array.getD_eq_getD_getElem?]
  cases hn : m.nodes[n]? with
  | none => trivial
  | some node => exact hm.nodes n node hn

theorem makes_entriesOf (n : Nat) :
    Makes size (fun es => ∀ e ∈ es, e.1 < size ∧ e.2 < size) (entriesOf n) := by
  refine (makes_nodeOf n).bind fun node hnode => ?_
  split
  · rename_i es hes
    rw [hes] at hnode
    exact .pure hnode
  · exact .malformed

theorem makes_setEntries {es : List (Nat × Nat)} (h : ∀ e ∈ es, e.1 < size ∧ e.2 < size) (n : Nat) :
    Makes size (fun _ => True) (setEntries n es) :=
  .modify fun _ hm => hm.modifyNode (f := fun node => { node with content := .map es })
    (fun _ _ => h) n

theorem makes_hasTag (tag : Tag) (n : Nat) : Makes size (fun _ => True) (hasTag tag n) :=
  (makes_nodeOf n).bind fun _ _ => .pure trivial

theorem makes_plainKey (n : Nat) : Makes size (fun _ => True) (plainKey n) := by
  refine (makes_hasTag _ n).bind fun b _ => ?_
  split
  · exact .modify fun _ hm => hm.modifyNode (f := fun node => { node with tag := .text })
      (fun _ h => h) n
  · exact .pure trivial

theorem makes_cutAtMerge {es : List (Nat × Nat)} (h : ∀ e ∈ es, e.1 < size ∧ e.2 < size)
    (from_ : Nat) :
    Makes size (fun cut => ∀ c ∈ cut, ∀ e ∈ c.1 ++ c.2.2, e.1 < size ∧ e.2 < size)
      (cutAtMerge from_ es) := by
  refine Makes.get.bind fun m _ => ?_
  split
  · exact .pure fun _ hc => by cases hc
  · split
    · rename_i v behind hcut
      refine .pure fun c hc e he => ?_
      cases hc
      rcases List.mem_append.mp he with he | he
      · exact h e (List.mem_of_mem_take he)
      · exact h e (List.mem_of_mem_drop (hcut ▸ List.mem_cons_of_mem _ he))
    · exact .pure fun _ hc => by cases hc

theorem makes_merged_allEntries (fuel : Nat) :
    (∀ n from_, Makes size (fun es => ∀ e ∈ es, e.1 < size ∧ e.2 < size) (merged fuel n from_)) ∧
      ∀ n, Makes size (fun es => ∀ e ∈ es, e.1 < size ∧ e.2 < size) (allEntries fuel n) := by
  induction fuel with
  | zero => exact ⟨fun _ _ => .malformed, fun _ => .malformed⟩
  | succ fuel ih =>
    refine ⟨fun n from_ => ?_, fun n => ?_⟩
    · refine (makes_entriesOf n).bind fun es hes => (makes_cutAtMerge hes from_).bind
        fun cut hcut => ?_
      split
      · exact .pure fun _ h => absurd h List.not_mem_nil
      · refine (makes_setEntries (hcut _ rfl) n).bind fun _ _ => (makes_nodeOf _).bind
          fun node _ => ?_
        have hrest : ∀ es : List (Nat × Nat), (∀ e ∈ es, e.1 < size ∧ e.2 < size) →
            ∀ k, Makes size (fun es => ∀ e ∈ es, e.1 < size ∧ e.2 < size)
              (merged fuel n k >>= fun es' => pure (es ++ es')) := fun es hes k =>
          (ih.1 n k).bind fun es' hes' => .pure (List.forall_mem_append.mpr ⟨hes, hes'⟩)
        split
        · exact .bind .malformed fun es h => hrest es h _
        · exact (ih.2 _).bind fun es h => hrest es h _
        · rename_i items _
          refine (Makes.mapM fun k _ => ih.2 k).bind fun ess hess => hrest _ ?_ _
          intro e he
          obtain ⟨es, hes, he⟩ := List.mem_flatten.mp he
          exact hess es (List.mem_reverse.mp hes) e he
    · have hrest : Makes size (fun es => ∀ e ∈ es, e.1 < size ∧ e.2 < size)
          (entriesOf n >>= fun es => es.forM (fun e => plainKey e.1) >>= fun _ => pure es) :=
        (makes_entriesOf n).bind fun es hes =>
          (Makes.forM fun e _ => makes_plainKey e.1).bind fun _ _ => .pure hes
      refine (ih.1 n 0).bind fun es hes => ?_
      dsimp only
      split
      · exact (makes_entriesOf n).bind fun old hold =>
          (makes_setEntries (List.forall_mem_append.mpr ⟨hes, hold⟩) n).bind fun _ _ => hrest
      · exact hrest

theorem makes_textOf (fuel n : Nat) : Makes size (fun _ => True) (textOf fuel n) := by
  induction fuel generalizing n with
  | zero => exact .malformed
  | succ fuel ih =>
    refine (makes_nodeOf n).bind fun node _ => ?_
    split
    · exact .pure trivial
    · exact .malformed
    · refine Makes.get.bind fun m _ => ?_
      split
      · exact ih _
      · exact .malformed

/-- A collection that is begun has no members yet. -/
theorem makes_begin_ {n : Nat} (hn : n < size) {empty : Part} (hempty : empty.items = []) :
    Makes size (fun i => i.Within size) (begin_ n empty) := by
  refine Makes.get.bind fun m _ => ?_
  have hpart : Makes size (fun i : Item => i.Within size) (pure (Item.part n)) := .pure hn
  dsimp only
  split
  · refine (Makes.modify fun m hm => ?_).bind fun _ _ => hpart
    exact hm.setPart n fun i hi => by simp [hempty] at hi
  · exact hpart

theorem makes_item {n : Nat} (hn : n < size) : Makes size (fun i => i.Within size) (item n) := by
  refine (makes_nodeOf n).bind fun node _ => ?_
  split
  · exact makes_begin_ hn rfl
  · exact makes_begin_ hn rfl
  · exact makes_begin_ hn rfl
  · exact makes_begin_ hn rfl
  · refine Makes.get.bind fun m _ => (makes_textOf _ n).bind fun t _ => ?_
    split
    · intro m i m' hm hrun
      cases hrun
    · exact (Makes.lift fun _ _ => trivial).bind fun a _ => .pure ⟨a, rfl⟩

theorem makes_keyOf {n : Nat} (hn : n < size) : Makes size (fun _ => True) (keyOf n) := by
  refine (makes_item hn).bind fun i _ => ?_
  split
  · exact .pure trivial
  · exact .malformed

theorem makes_mergeFuel : Makes size (fun _ => True) mergeFuel :=
  Makes.get.bind fun _ _ => .pure trivial

theorem makes_entryItems (n : Nat) :
    Makes size (fun es => ∀ e ∈ es, e.2.Within size) (entryItems n) := by
  refine makes_mergeFuel.bind fun fuel _ => ((makes_merged_allEntries fuel).2 n).bind fun es hes => ?_
  have hentry : ∀ e ∈ es, Makes size (fun made : Atom × Item => made.2.Within size)
      (keyOf e.1 >>= fun key => item e.2 >>= fun i => pure (key, i)) := fun e he =>
    (makes_keyOf (hes e he).1).bind fun _ _ => (makes_item (hes e he).2).bind fun _ hi => .pure hi
  exact (Makes.mapM hentry).bind fun items hitems => .pure (Entries.forall_mem_ofList hitems)

theorem makes_pairOf (n : Nat) : Makes size (fun i => i.Within size) (pairOf n) := by
  refine (makes_entriesOf n).bind fun es hes => ?_
  split
  · rename_i k v
    obtain ⟨hk, hv⟩ := hes (k, v) List.mem_cons_self
    exact (makes_item hk).bind fun _ hfirst => (makes_item hv).bind fun _ hsecond =>
      .pure ⟨hfirst, hsecond⟩
  · exact .malformed

/-- **The collections that a member of a collection refers to** are there. -/
theorem makes_partOf (n : Nat) :
    Makes size (fun p => ∀ i ∈ p.items, i.Within size) (partOf n) := by
  refine (makes_nodeOf n).bind fun node hnode => ?_
  split
  · rename_i items _ hitems
    rw [hitems] at hnode
    exact (Makes.mapM fun k hk => makes_item (hnode k hk)).bind fun _ h => .pure h
  · exact (Makes.mapM fun k _ => makes_pairOf k).bind fun _ h => .pure h
  · refine (makes_entryItems n).bind fun es hes => .pure fun i hi => ?_
    obtain ⟨e, he, rfl⟩ := List.mem_map.mp hi
    exact hes e he
  · exact (makes_entryItems n).bind fun es _ => .pure fun i hi => absurd hi List.not_mem_nil
  · exact .malformed

/-- Nothing is left to do where no collection waits. -/
theorem run_partsOf_nil {m : Making} (hm : m.waiting = []) (fuel : Nat) :
    (partsOf fuel).run m = .ok ((), m) := by
  obtain ⟨nodes, parts, waiting⟩ := m
  subst hm
  -- the steps look at what waits before they look at the fuel, so there is no equation to rewrite by
  cases fuel <;>
    · delta partsOf
      rfl

theorem run_partsOf_zero {m : Making} {n : Nat} {more : List Nat} (hm : m.waiting = n :: more) :
    (partsOf 0).run m = .error .malformed := by
  obtain ⟨nodes, parts, waiting⟩ := m
  subst hm
  delta partsOf
  rfl

/-- The first collection that waits gets its members. -/
theorem run_partsOf_succ {m : Making} {n : Nat} {more : List Nat} (hm : m.waiting = n :: more)
    (fuel : Nat) : (partsOf (fuel + 1)).run m = (do
      modify fun m => { m with waiting := more }
      let p ← partOf n
      modify fun m => { m with parts := m.parts.setIfInBounds n (some p) }
      partsOf fuel : Make Unit).run m := by
  obtain ⟨nodes, parts, waiting⟩ := m
  subst hm
  delta partsOf
  rfl

theorem makes_partsOf (fuel : Nat) : Makes size (fun _ => True) (partsOf fuel) := by
  induction fuel with
  | zero =>
    intro m u m' hm hrun
    cases hw : m.waiting with
    | nil =>
      rw [run_partsOf_nil hw] at hrun
      cases hrun
      exact ⟨hm, trivial⟩
    | cons n more =>
      rw [run_partsOf_zero hw] at hrun
      cases hrun
  | succ fuel ih =>
    intro m u m' hm hrun
    cases hw : m.waiting with
    | nil =>
      rw [run_partsOf_nil hw] at hrun
      cases hrun
      exact ⟨hm, trivial⟩
    | cons n more =>
      rw [run_partsOf_succ hw] at hrun
      refine Makes.bind (Makes.modify fun m hm => ?_) (fun _ _ => (makes_partOf n).bind fun p hp =>
        Makes.bind (Makes.modify fun m hm => hm.setPart n hp) fun _ _ => ih) m u m' hm hrun
      exact ⟨hm.size_nodes, hm.nodes, hm.size_parts, hm.parts⟩

end Make

namespace Document

theorem closed_of_ofGraph {g : Graph} (hroot : g.root < g.nodes.size)
    (hnodes : NodesWithin g.nodes.size g.nodes) {d : Document} (h : ofGraph g = .ok d) :
    d.Closed := by
  rw [ofGraph] at h
  cases hmake : (Make.item g.root >>= fun root => Make.partsOf g.nodes.size >>= fun _ =>
      pure root : Make Item).run ⟨g.nodes, Array.replicate g.nodes.size none, []⟩ with
  | error e =>
    rw [hmake] at h
    cases h
  | ok r =>
    rw [hmake] at h
    cases h
    have hnew : Making.Sound g.nodes.size ⟨g.nodes, Array.replicate g.nodes.size none, []⟩ := by
      refine ⟨rfl, hnodes, Array.size_replicate, fun n p hp => ?_⟩
      rw [Array.getElem?_replicate] at hp
      split at hp <;> cases hp
    obtain ⟨hmade, hitem⟩ := (Make.makes_item hroot).bind
      (fun root hroot => (Make.makes_partsOf _).bind fun _ _ => .pure hroot) _ r.1 r.2 hnew hmake
    have hsize : (r.2.parts.map (·.getD (.list []))).size = g.nodes.size :=
      Array.size_map.trans hmade.size_parts
    refine ⟨?_, fun n p hp => ?_⟩
    · rw [hsize]
      exact hitem
    · rw [hsize]
      obtain ⟨made, hn, rfl⟩ := Option.map_eq_some_iff.mp (Array.getElem?_map ▸ hp)
      cases made with
      | none => exact fun i hi => absurd hi List.not_mem_nil
      | some p => exact hmade.parts n p hn

/-- **A document that has been read is closed.** -/
theorem closed_of_read {t : Text} {d : Document} (h : read t = .ok d) : d.Closed := by
  rw [read] at h
  cases hg : Graph.ofTokens (Tokens.ofText t) with
  | error e =>
    rw [hg] at h
    cases h
  | ok g =>
    rw [hg] at h
    obtain ⟨hroot, hnodes⟩ := Graph.within_of_ofTokens hg
    exact closed_of_ofGraph hroot hnodes h

/-! ## Documents that differ in an added configuration -/

open Schema

/-- The second document is the first one, with a new map for the configuration of its root. -/
structure Extends (d d' : Document) (n : Nat) (es : Entries Item) : Prop where
  old : d.root? = some (n, es)
  new : d'.root? = some (n, es.put (.text "config") (.part d.parts.size))
  size : d'.parts.size = d.parts.size + 1
  added : d'.parts[d.parts.size]? = some (.map [])
  others : ∀ m < d.parts.size, m ≠ n → d'.parts[m]? = d.parts[m]?

section

variable {d d' : Document} {n : Nat} {es : Entries Item}

/-- Other names are found as before. -/
theorem find?_put_config {name : Text} (hname : name ≠ "config") (i : Item) :
    (es.put (.text "config") i).find? (.text name) = es.find? (.text name) :=
  Entries.find?_put_of_not_same i (same_text_eq_false hname.symm)

/-- Whether plans stand among the members of the root. -/
def HasPlans (es : Entries Item) : Prop :=
  (es.find? (.text "entities")).isSome = true ∨ (es.find? (.text "entity")).isSome = true

theorem HasPlans.known (h : HasPlans es) (d : Document) (k : Nat) : HoldsPlans (d.known k es) := by
  rcases h with h | h
  · refine .inl ?_
    rw [Value.find?, find?_known, Option.isSome_map]
    exact h
  · refine .inr ?_
    rw [Value.find?, find?_known, Option.isSome_map]
    exact h

theorem HasPlans.put (h : HasPlans es) (i : Item) : HasPlans (es.put (.text "config") i) := by
  rcases h with h | h
  · refine .inl ?_
    rw [find?_put_config (by decide)]
    exact h
  · refine .inr ?_
    rw [find?_put_config (by decide)]
    exact h

/-- A member that is found is one of the members. -/
theorem mem_of_find? {name : Text} {i : Item} (h : es.find? (.text name) = some i) :
    i ∈ es.map (·.2) := by
  obtain ⟨e, he, rfl⟩ := Entries.exists_of_find? h
  exact List.mem_map_of_mem he

/-- **Every part of the document looks the same** as many levels deep as have been looked into. -/
theorem Extends.similar (h : Extends d d' n es) (hclosed : d.Closed) (hplans : HasPlans es)
    {k a b : Nat} (ha : k ≤ a) (hb : k ≤ b) {i : Item} (hi : i.Within d.parts.size) :
    Similar k (itemValue (d.levels a) i).1 (itemValue (d'.levels b) i).1 := by
  induction k generalizing a b i with
  | zero => trivial
  | succ k ih =>
    obtain ⟨a, rfl⟩ : ∃ a', a = a' + 1 := ⟨a - 1, by omega⟩
    obtain ⟨b, rfl⟩ : ∃ b', b = b' + 1 := ⟨b - 1, by omega⟩
    -- the values of a map's members
    have hvalues : ∀ {es es' : Entries Item}, (∀ e ∈ es, e.2.Within d.parts.size) →
        ∀ name : Text, es'.find? (.text name) = es.find? (.text name) →
          Option.Rel (Similar k) (Value.find? (d.known a es) name)
            (Value.find? (d'.known b es') name) := by
      intro es es' hwithin name hsame
      rw [Value.find?, Value.find?, find?_known, find?_known, hsame]
      cases hfind : es.find? (.text name) with
      | none => exact .none
      | some i =>
        obtain ⟨e, he, rfl⟩ := Entries.exists_of_find? hfind
        exact .some (ih (by omega) (by omega) (hwithin e he))
    cases i with
    | value v =>
      obtain ⟨x, rfl⟩ := hi
      rfl
    | pair first second =>
      refine List.Forall₂.cons (ih (by omega) (by omega) hi.1) (.cons ?_ .nil)
      exact ih (by omega) (by omega) hi.2
    | part m =>
      obtain ⟨p, hp⟩ : ∃ p, d.parts[m]? = some p := ⟨_, Array.getElem?_eq_getElem hi⟩
      have hwithin := hclosed.parts m p hp
      by_cases hm : m = n
      · subst hm
        obtain ⟨-, hes⟩ := root?_eq_some_iff.mp h.old
        obtain ⟨-, hes'⟩ := root?_eq_some_iff.mp h.new
        obtain rfl : p = .map es := Option.some.inj (hp.symm.trans hes)
        rw [itemValue_part hes, itemValue_part hes', partValue_map, partValue_map]
        exact ⟨fun name hname => hvalues (fun e he => hwithin e.2 (List.mem_map_of_mem he)) name
          (find?_put_config hname _), .inr ⟨hplans.known d a, (hplans.put _).known d' b⟩⟩
      · have hp' : d'.parts[m]? = some p := (h.others m hi hm).trans hp
        rw [itemValue_part hp, itemValue_part hp']
        cases p with
        | list items =>
          rw [partValue_list, partValue_list]
          refine List.forall₂_map_left_iff.mpr (List.forall₂_map_right_iff.mpr ?_)
          exact List.forall₂_same.mpr fun i hi => ih (by omega) (by omega) (hwithin i hi)
        | set members => rfl
        | map entries =>
          rw [partValue_map, partValue_map]
          refine ⟨fun name _ => hvalues (fun e he => hwithin e.2 (List.mem_map_of_mem he)) name rfl,
            .inl ?_⟩
          exact (keys_known a entries).trans (keys_known b entries).symm

/-- **A document under no settings** is the same if its root has a map for the configuration. -/
theorem withSettings_nil_of_map (hroot : d.root? = some (n, es)) {m : Nat} {inner : Entries Item}
    (hconfig : d.mapUnder? es (.text "config") = some (m, inner)) :
    d.withSettings (.text "config") [] = d := by
  have hpart := (mapUnder?_eq_some_iff.mp hconfig).2
  have hsame : d.parts.setIfInBounds m (.map inner) = d.parts := by
    refine Array.ext_getElem? fun j => ?_
    rw [Array.getElem?_setIfInBounds]
    split
    · rename_i hj
      subst hj
      rw [if_pos (Array.getElem?_eq_some_iff.mp hpart).1, hpart]
    · rfl
  rw [withSettings_of_map hroot hconfig, setPart, settled, List.foldl_nil, hsame]

/-- **Otherwise it is extended.** -/
theorem extends_withSettings_nil (hroot : d.root? = some (n, es))
    (hconfig : d.mapUnder? es (.text "config") = none) :
    Extends d (d.withSettings (.text "config") []) n es := by
  have hn : n < d.parts.size := (Array.getElem?_eq_some_iff.mp (root?_eq_some_iff.mp hroot).2).1
  have hsize : (d.parts.setIfInBounds n (.map (es.put (.text "config")
      (.part d.parts.size)))).size = d.parts.size := Array.size_setIfInBounds
  rw [withSettings_of_none hroot hconfig]
  refine ⟨hroot, ?_, ?_, ?_, fun m hm hne => ?_⟩
  · rw [root?, (root?_eq_some_iff.mp hroot).1]
    dsimp only
    rw [Array.getElem?_push_lt (by rwa [hsize]), Array.getElem_setIfInBounds_self]
  · rw [Array.size_push, hsize]
  · rw [Array.getElem?_push, if_pos hsize.symm]
    rfl
  · have hlt : m < (d.parts.setIfInBounds n (.map (es.put (.text "config")
        (.part d.parts.size)))).size := by rwa [hsize]
    dsimp only
    rw [Array.getElem?_push_lt hlt, ← Array.getElem?_eq_getElem hlt,
      Array.getElem?_setIfInBounds_ne hne.symm]

end

end Document

end Yaml

end EntityScaffold
