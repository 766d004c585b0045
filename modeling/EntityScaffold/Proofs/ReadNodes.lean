import EntityScaffold.Value.Yaml.Document

/-!
# The nodes of a document that has been read

Nodes go by numbers.  While the tokens of a document are read, every number that is written down is one
of a node that has been added: an alias has the number that its anchor has named, and a collection has
its number before its members are read.  No node goes again, so the numbers stay sound.

* `Reads` — what holds of a step that succeeds, given the number of nodes then; one lemma for each way
  of putting steps together.
* `Passes` — a step that only moves along the tokens.
* `ReadsNodes`, `readsNodes` — a node that has been read is there, with all that it holds.
* `Graph.within_of_ofTokens` — so the nodes of a document hold each other, and its root is one of them.
-/

set_option autoImplicit false

namespace EntityScaffold.Yaml

open Text

/-- A step that is made of two has made both. -/
theorem of_run_bind {S ε α β : Type} {x : StateT S (Except ε) α} {f : α → StateT S (Except ε) β}
    {s s' : S} {b : β} (h : (x >>= f).run s = .ok (b, s')) :
    ∃ a s₁, x.run s = .ok (a, s₁) ∧ (f a).run s₁ = .ok (b, s') := by
  rw [StateT.run_bind] at h
  cases hx : x.run s with
  | error e =>
    rw [hx] at h
    cases h
  | ok r =>
    rw [hx] at h
    exact ⟨r.1, r.2, rfl, h⟩

/-! ## Nodes -/

/-- The nodes that a node holds are among the first `size`. -/
def Content.Within (size : Nat) : Content → Prop
  | .scalar _ => True
  | .list items => ∀ n ∈ items, n < size
  | .map entries => ∀ e ∈ entries, e.1 < size ∧ e.2 < size

theorem Content.Within.mono {size size' : Nat} {c : Content} (h : c.Within size)
    (hle : size ≤ size') : c.Within size' := by
  cases c with
  | scalar t => trivial
  | list items => exact fun n hn => Nat.lt_of_lt_of_le (h n hn) hle
  | map entries =>
    exact fun e he => ⟨Nat.lt_of_lt_of_le (h e he).1 hle, Nat.lt_of_lt_of_le (h e he).2 hle⟩

/-- The nodes that nodes hold are there. -/
def NodesWithin (size : Nat) (nodes : Array Node) : Prop :=
  ∀ (n : Nat) (node : Node), nodes[n]? = some node → node.content.Within size

/-- What has been read: the nodes that are held or named are there. -/
structure Reading.Sound (r : Reading) : Prop where
  nodes : NodesWithin r.nodes.size r.nodes
  anchors : ∀ a ∈ r.anchors, a.2 < r.nodes.size

section

variable {α β : Type} {least : Nat} {post : Nat → α → Prop}

/-- From what has been read of at least so many nodes, the step comes to something of which `post`
holds, given the number of nodes then; and no nodes go. -/
def Reads (least : Nat) (post : Nat → α → Prop) (x : Read α) : Prop :=
  ∀ r a r', r.Sound → least ≤ r.nodes.size → x.run r = .ok (a, r') →
    r'.Sound ∧ r.nodes.size ≤ r'.nodes.size ∧ post r'.nodes.size a

theorem Reads.pure {a : α} (h : ∀ size, least ≤ size → post size a) :
    Reads least post (pure a) := by
  intro r b r' hr hle hrun
  cases hrun
  exact ⟨hr, Nat.le_refl _, h _ hle⟩

theorem Reads.malformed : Reads least post Read.malformed := by
  intro r b r' hr hle hrun
  cases hrun

/-- One step after another, which begins with at least the nodes that the first has left. -/
theorem Reads.bind {x : Read α} {f : α → Read β} {post' : Nat → β → Prop} (hx : Reads least post x)
    (hf : ∀ a size, least ≤ size → post size a → Reads size post' (f a)) :
    Reads least post' (x >>= f) := by
  intro r b r' hr hle hrun
  obtain ⟨a, r₁, hrun₁, hrun₂⟩ := of_run_bind hrun
  obtain ⟨hr₁, hle₁, ha⟩ := hx r a r₁ hr hle hrun₁
  obtain ⟨hr', hle', hb⟩ := hf a _ (Nat.le_trans hle hle₁) ha r₁ b r' hr₁ (Nat.le_refl _) hrun₂
  exact ⟨hr', Nat.le_trans hle₁ hle', hb⟩

theorem Reads.map {x : Read α} {f : α → β} {post' : Nat → β → Prop} (hx : Reads least post x)
    (hf : ∀ size a, post size a → post' size (f a)) : Reads least post' (f <$> x) := by
  intro r b r₂ hr hle hrun
  rw [← bind_pure_comp] at hrun
  obtain ⟨a, r₁, hrun₁, hrun₂⟩ := of_run_bind hrun
  cases hrun₂
  obtain ⟨hr', hgrown, ha⟩ := hx r a _ hr hle hrun₁
  exact ⟨hr', hgrown, hf _ a ha⟩

theorem Reads.mono {x : Read α} {least' : Nat} {post' : Nat → α → Prop} (h : Reads least post x)
    (hle : least ≤ least') (hpost : ∀ size a, least' ≤ size → post size a → post' size a) :
    Reads least' post' x := by
  intro r a r' hr hle' hrun
  obtain ⟨hr', hgrown, ha⟩ := h r a r' hr (Nat.le_trans hle hle') hrun
  exact ⟨hr', hgrown, hpost _ a (Nat.le_trans hle' hgrown) ha⟩

/-- What has been read so far. -/
theorem Reads.get_bind {f : Reading → Read β} {post : Nat → β → Prop}
    (hf : ∀ r : Reading, r.Sound → least ≤ r.nodes.size → Reads r.nodes.size post (f r)) :
    Reads least post (get >>= f) := by
  intro r b r' hr hle hrun
  exact hf r hr hle r b r' hr (Nat.le_refl _) hrun

/-- A step that changes neither nodes nor names. -/
def Passes (x : Read α) : Prop :=
  ∀ r a r', x.run r = .ok (a, r') → r'.nodes = r.nodes ∧ r'.anchors = r.anchors

theorem Passes.reads {x : Read α} (h : Passes x) : Reads least (fun _ _ => True) x := by
  intro r a r' hr hle hrun
  obtain ⟨hnodes, hanchors⟩ := h r a r' hrun
  refine ⟨⟨?_, ?_⟩, Nat.le_of_eq (congrArg Array.size hnodes.symm), trivial⟩
  · rw [hnodes]
    exact hr.nodes
  · rw [hnodes, hanchors]
    exact hr.anchors

theorem Passes.pure (a : α) : Passes (pure a : Read α) := by
  intro r b r' hrun
  cases hrun
  exact ⟨rfl, rfl⟩

theorem Passes.malformed : Passes (Read.malformed : Read α) := by
  intro r b r' hrun
  cases hrun

theorem Passes.bind {x : Read α} {f : α → Read β} (hx : Passes x) (hf : ∀ a, Passes (f a)) :
    Passes (x >>= f) := by
  intro r b r' hrun
  obtain ⟨a, r₁, hrun₁, hrun₂⟩ := of_run_bind hrun
  obtain ⟨hnodes, hanchors⟩ := hx r a r₁ hrun₁
  obtain ⟨hnodes', hanchors'⟩ := hf a r₁ b r' hrun₂
  exact ⟨hnodes'.trans hnodes, hanchors'.trans hanchors⟩

/-- A step that may be left out. -/
theorem Passes.ite_bind {x : Read α} {a : α} {f : α → Read β} {c : Prop} [Decidable c]
    (hx : Passes x) (hf : ∀ a, Passes (f a)) : Passes (if c then x >>= f else f a) := by
  split
  · exact hx.bind hf
  · exact hf a

theorem Passes.get : Passes (get : Read Reading) := by
  intro r b r' hrun
  cases hrun
  exact ⟨rfl, rfl⟩

end

namespace Read

variable {least : Nat}

/-! ## Tokens -/

theorem passes_peek : Passes peek := by
  refine Passes.get.bind fun r => ?_
  split
  · exact .pure _
  · exact .pure _
  · intro s a s' hrun
    cases hrun

theorem passes_advance : Passes advance := by
  intro r a r' hrun
  cases hrun
  exact ⟨rfl, rfl⟩

theorem passes_accept (t : Token) : Passes (accept t) := by
  refine passes_peek.bind fun next => ?_
  split
  · exact passes_advance.bind fun _ => .pure _
  · exact .pure _

theorem passes_expect (t : Token) : Passes (expect t) := by
  refine (passes_accept t).bind fun b => ?_
  cases b
  · exact .malformed
  · exact .pure _

theorem passes_isAt (ts : List Token) : Passes (isAt ts) := passes_peek.bind fun _ => .pure _

theorem passes_fullTag (handle : Option Text) (suffix : Text) : Passes (fullTag handle suffix) := by
  unfold fullTag
  split
  · exact .pure _
  · refine Passes.get.bind fun r => ?_
    split
    · exact .pure _
    split
    · exact .pure _
    split
    · exact .pure _
    · exact .malformed

theorem passes_anchorOf (p : Properties) : Passes (anchorOf p) := by
  refine passes_peek.bind fun next => ?_
  split
  · exact passes_advance.bind fun _ => .pure _
  · exact .pure _

theorem passes_tagOf (p : Properties) : Passes (tagOf p) := by
  refine passes_peek.bind fun next => ?_
  split
  · exact passes_advance.bind fun _ => (passes_fullTag _ _).bind fun _ => .pure _
  · exact .pure _

theorem passes_properties : Passes properties := by
  refine (passes_anchorOf _).bind fun p => (passes_tagOf p).bind fun p => ?_
  refine Passes.ite_bind (passes_anchorOf p) fun p => ?_
  dsimp only
  split
  · exact .pure _
  · refine Passes.get.bind fun r => ?_
    split
    · exact .malformed
    · exact .pure _

/-- A new handle for a name space of tags. -/
theorem passes_handle (handle space : Text) : Passes (modify fun r : Reading =>
    { r with handles := (handle, space) :: r.handles } : Read Unit) := by
  intro r a r' hrun
  cases hrun
  exact ⟨rfl, rfl⟩

theorem passes_directives (fuel : Nat) (hasVersion : Bool) : Passes (directives fuel hasVersion) := by
  induction fuel generalizing hasVersion with
  | zero => exact .malformed
  | succ fuel ih =>
    refine passes_peek.bind fun next => ?_
    split
    · refine passes_advance.bind fun _ => ?_
      split
      · exact .malformed
      · exact ih true
    · refine passes_advance.bind fun _ => Passes.get.bind fun r => ?_
      split
      · exact .bind .malformed fun _ => (passes_handle _ _).bind fun _ => ih hasVersion
      · exact (passes_handle _ _).bind fun _ => ih hasVersion
    · exact passes_advance.bind fun _ => ih hasVersion
    · exact .pure _

/-! ## Nodes that are added -/

section

variable {least : Nat}

theorem reads_add {n : Node} (h : n.content.Within least) :
    Reads least (fun size number => number < size) (add n) := by
  intro r a r' hr hle hrun
  cases hrun
  have hgrown : r.nodes.size ≤ (r.nodes.push n).size := by simp
  refine ⟨⟨fun m node hm => ?_, fun a ha => Nat.lt_of_lt_of_le (hr.anchors a ha) hgrown⟩, hgrown, ?_⟩
  · rw [Array.getElem?_push] at hm
    split at hm
    · cases hm
      exact h.mono (Nat.le_trans hle hgrown)
    · exact (hr.nodes m node hm).mono hgrown
  · show r.nodes.size < (r.nodes.push n).size
    simp

theorem reads_name {number : Nat} (h : number < least) (anchor : Option Text) :
    Reads least (fun _ _ => True) (name anchor number) := by
  intro r a r' hr hle hrun
  cases hrun
  refine ⟨⟨hr.nodes, fun a ha => ?_⟩, Nat.le_refl _, trivial⟩
  rcases List.mem_append.mp ha with ha | ha
  · obtain ⟨name, -, rfl⟩ := List.mem_map.mp ha
    exact Nat.lt_of_lt_of_le h hle
  · exact hr.anchors a ha

theorem reads_fill {c : Content} (h : c.Within least) (number : Nat) :
    Reads least (fun _ _ => True) (fill number c) := by
  intro r a r' hr hle hrun
  cases hrun
  have hsize : (r.nodes.modify number fun n => { n with content := c }).size = r.nodes.size :=
    Array.size_modify
  refine ⟨⟨fun m node hm => ?_, ?_⟩, Nat.le_of_eq hsize.symm, trivial⟩
  · rw [Array.getElem?_modify] at hm
    split at hm
    · obtain ⟨old, -, rfl⟩ := Option.map_eq_some_iff.mp hm
      exact h.mono (hsize ▸ hle)
    · rw [hsize]
      exact hr.nodes m node hm
  · intro a ha
    rw [hsize]
    exact hr.anchors a ha

/-- A node that is added, named and given. -/
theorem reads_scalar (p : Properties) (isPlain : Bool) (t : Text) :
    Reads least (fun size number => number < size) (scalar p isPlain t) :=
  (reads_add (n := ⟨p.ofScalar isPlain t, .scalar t⟩) trivial).bind fun _ _ _ hnumber =>
    (reads_name hnumber p.anchor).bind fun _ _ hle _ =>
      .pure fun _ hle' => Nat.lt_of_lt_of_le hnumber (Nat.le_trans hle hle')

theorem reads_collection (p : Properties) (usual : Tag) {x : Read Content}
    (hx : ∀ least' ≥ least, Reads least' (fun size c => c.Within size) x) :
    Reads least (fun size number => number < size) (collection p usual x) :=
  (reads_add (n := ⟨p.ofCollection usual, .list []⟩) (fun _ h => absurd h List.not_mem_nil)).bind
    fun number _ hle hnumber => (reads_name hnumber p.anchor).bind fun _ _ hle₁ _ =>
      (hx _ (Nat.le_trans hle hle₁)).bind fun c _ hle₂ hc => (reads_fill hc number).bind fun _ _ hle₃ _ =>
        .pure fun _ hle₄ => by omega

theorem reads_absent : Reads least (fun size number => number < size) absent := reads_add trivial

theorem reads_missing (p : Properties) :
    Reads least (fun size number => number < size) (missing p) := by
  unfold missing
  split
  · exact .malformed
  · exact reads_scalar p true []

end

/-! ## Nodes that are read -/

/-- With so much fuel, every node that has been read is there. -/
structure ReadsNodes (fuel : Nat) : Prop where
  node : ∀ place least, Reads least (fun size n => n < size) (node fuel place)
  content : ∀ place p least, Reads least (fun size n => n < size) (content fuel place p)
  nodeUnless : ∀ place ends least, Reads least (fun size n => n < size) (nodeUnless fuel place ends)
  blockItems : ∀ least, Reads least (fun size ns => ∀ n ∈ ns, n < size) (blockItems fuel)
  innerItems : ∀ least, Reads least (fun size ns => ∀ n ∈ ns, n < size) (innerItems fuel)
  blockEntries : ∀ least,
    Reads least (fun size es => ∀ e ∈ es, e.1 < size ∧ e.2 < size) (blockEntries fuel)
  flowValue : ∀ ends least, Reads least (fun size n => n < size) (flowValue fuel ends)
  flowItems : ∀ isFirst least,
    Reads least (fun size ns => ∀ n ∈ ns, n < size) (flowItems fuel isFirst)
  flowEntries : ∀ isFirst least,
    Reads least (fun size es => ∀ e ∈ es, e.1 < size ∧ e.2 < size) (flowEntries fuel isFirst)

/-- An alias gives the node that its anchor has named. -/
theorem lookup_lt {r : Reading} (hr : r.Sound) {anchor : Text} {number : Nat}
    (h : r.anchors.lookup anchor = some number) : number < r.nodes.size := by
  obtain ⟨before, behind, hanchors, -⟩ := List.lookup_eq_some_iff.mp h
  exact hr.anchors (anchor, number) (by rw [hanchors]; simp)

/-- A separator before all but the first. -/
theorem reads_separated {α : Type} {least : Nat} {post : Nat → α → Prop} {x : Read α}
    (hx : ∀ least, Reads least post x) (b : Bool) (t : Token) :
    Reads least post (if b = true then expect t >>= fun _ => x else x) := by
  cases b
  · exact hx least
  · exact (passes_expect t).reads.bind fun _ _ _ _ => hx _

/-- One more behind a node that has been read. -/
theorem reads_cons {least n : Nat} {x : Read (List Nat)} (hn : n < least)
    (hx : ∀ least, Reads least (fun size ns => ∀ n ∈ ns, n < size) x) :
    Reads least (fun size ns => ∀ n ∈ ns, n < size) (x >>= fun ns => pure (n :: ns)) :=
  (hx least).bind fun _ _ hle hns => .pure fun _ hle' =>
    List.forall_mem_cons.mpr ⟨by omega, fun n hn => Nat.lt_of_lt_of_le (hns n hn) hle'⟩

/-- One more entry of nodes that have been read. -/
theorem reads_consEntry {least k v : Nat} {x : Read (List (Nat × Nat))} (hk : k < least)
    (hv : v < least)
    (hx : ∀ least, Reads least (fun size es => ∀ e ∈ es, e.1 < size ∧ e.2 < size) x) :
    Reads least (fun size es => ∀ e ∈ es, e.1 < size ∧ e.2 < size)
      (x >>= fun es => pure ((k, v) :: es)) :=
  (hx least).bind fun _ _ hle hes => .pure fun _ hle' =>
    List.forall_mem_cons.mpr ⟨⟨by omega, by omega⟩,
      fun e he => ⟨Nat.lt_of_lt_of_le (hes e he).1 hle', Nat.lt_of_lt_of_le (hes e he).2 hle'⟩⟩

section

variable {fuel least : Nat} (ih : ReadsNodes fuel)

include ih

theorem reads_node_succ (place : Place) :
    Reads least (fun size n => n < size) (node (fuel + 1) place) := by
  refine passes_peek.reads.bind fun next _ _ _ => ?_
  split
  · refine passes_advance.reads.bind fun _ _ _ _ => Reads.get_bind fun r hr _ => ?_
    split
    · rename_i number hnumber
      exact .pure fun size hle => Nat.lt_of_lt_of_le (lookup_lt hr hnumber) hle
    · exact .malformed
  · exact passes_properties.reads.bind fun p _ _ _ => ih.content place p _

theorem reads_content_succ (place : Place) (p : Properties) :
    Reads least (fun size n => n < size) (content (fuel + 1) place p) := by
  refine passes_peek.reads.bind fun next _ _ _ => ?_
  split
  · exact passes_advance.reads.bind fun _ _ _ _ => reads_scalar _ _ _
  · exact passes_advance.reads.bind fun _ _ _ _ => reads_collection _ _ fun _ _ =>
      (ih.flowItems true _).map fun _ _ h => h
  · exact passes_advance.reads.bind fun _ _ _ _ => reads_collection _ _ fun _ _ =>
      (ih.flowEntries true _).map fun _ _ h => h
  · split
    · exact reads_collection _ _ fun _ _ => (ih.innerItems _).map fun _ _ h => h
    · exact reads_missing p
  · split
    · exact reads_missing p
    · exact passes_advance.reads.bind fun _ _ _ _ => reads_collection _ _ fun _ _ =>
        (ih.blockItems _).map fun _ _ h => h
  · split
    · exact reads_missing p
    · exact passes_advance.reads.bind fun _ _ _ _ => reads_collection _ _ fun _ _ =>
        (ih.blockEntries _).map fun _ _ h => h
  · exact reads_missing p

/-- A node that may be left out. -/
theorem reads_nodeUnless_succ (place : Place) (ends : List Token) :
    Reads least (fun size n => n < size) (nodeUnless (fuel + 1) place ends) := by
  refine (passes_isAt ends).reads.bind fun b _ _ _ => ?_
  cases b
  · exact ih.node place _
  · exact reads_absent

theorem reads_blockItems_succ :
    Reads least (fun size ns => ∀ n ∈ ns, n < size) (blockItems (fuel + 1)) := by
  refine (passes_accept _).reads.bind fun b _ _ _ => ?_
  cases b
  · exact (passes_expect _).reads.bind fun _ _ _ _ => .pure fun _ _ _ h => absurd h List.not_mem_nil
  · exact (ih.nodeUnless _ _ _).bind fun n _ _ hn => reads_cons hn ih.blockItems

/-- The items behind a key. -/
theorem reads_innerItems_succ :
    Reads least (fun size ns => ∀ n ∈ ns, n < size) (innerItems (fuel + 1)) := by
  refine (passes_accept _).reads.bind fun b _ _ _ => ?_
  cases b
  · exact .pure fun _ _ _ h => absurd h List.not_mem_nil
  · exact (ih.nodeUnless _ _ _).bind fun n _ _ hn => reads_cons hn ih.innerItems

theorem reads_blockEntries_succ :
    Reads least (fun size es => ∀ e ∈ es, e.1 < size ∧ e.2 < size) (blockEntries (fuel + 1)) := by
  refine (passes_accept _).reads.bind fun b _ _ _ => ?_
  cases b
  · exact (passes_expect _).reads.bind fun _ _ _ _ => .pure fun _ _ _ h => absurd h List.not_mem_nil
  · refine (ih.nodeUnless _ _ _).bind fun k _ _ hk => (passes_accept _).reads.bind
      fun b _ hle _ => ?_
    cases b
    · exact reads_absent.bind fun v _ hle' hv => reads_consEntry (by omega) hv ih.blockEntries
    · exact (ih.nodeUnless _ _ _).bind fun v _ hle' hv =>
        reads_consEntry (by omega) hv ih.blockEntries

theorem reads_flowValue_succ (ends : List Token) :
    Reads least (fun size n => n < size) (flowValue (fuel + 1) ends) := by
  refine (passes_accept _).reads.bind fun b _ _ _ => ?_
  cases b
  · exact reads_absent
  · exact ih.nodeUnless _ _ _

theorem reads_flowItems_succ (isFirst : Bool) :
    Reads least (fun size ns => ∀ n ∈ ns, n < size) (flowItems (fuel + 1) isFirst) := by
  refine (passes_accept _).reads.bind fun b _ _ _ => ?_
  cases b
  · refine reads_separated (fun least => ?_) (!isFirst) .comma
    refine (passes_accept _).reads.bind fun b _ _ _ => ?_
    cases b
    · refine (passes_accept _).reads.bind fun b _ _ _ => ?_
      cases b
      · exact (ih.node _ _).bind fun n _ _ hn => reads_cons hn (ih.flowItems false)
      · exact .pure fun _ _ _ h => absurd h List.not_mem_nil
    · -- an entry without braces is a map of its own
      refine (ih.nodeUnless _ _ _).bind fun k _ _ hk => (ih.flowValue _ _).bind
        fun v _ hle hv => ?_
      refine Reads.bind (reads_collection _ _ fun least hle' => .pure fun size hle'' => ?_)
        fun n _ _ hn => reads_cons hn (ih.flowItems false)
      exact List.forall_mem_singleton.mpr ⟨by omega, by omega⟩
  · exact .pure fun _ _ _ h => absurd h List.not_mem_nil

theorem reads_flowEntries_succ (isFirst : Bool) :
    Reads least (fun size es => ∀ e ∈ es, e.1 < size ∧ e.2 < size)
      (flowEntries (fuel + 1) isFirst) := by
  refine (passes_accept _).reads.bind fun b _ _ _ => ?_
  cases b
  · refine reads_separated (fun least => ?_) (!isFirst) .comma
    refine (passes_accept _).reads.bind fun b _ _ _ => ?_
    cases b
    · refine (passes_accept _).reads.bind fun b _ _ _ => ?_
      cases b
      · exact (ih.node _ _).bind fun k _ _ hk => reads_absent.bind fun v _ hle hv =>
          reads_consEntry (by omega) hv (ih.flowEntries false)
      · exact .pure fun _ _ _ h => absurd h List.not_mem_nil
    · exact (ih.nodeUnless _ _ _).bind fun k _ _ hk => (ih.flowValue _ _).bind
        fun v _ hle hv => reads_consEntry (by omega) hv (ih.flowEntries false)
  · exact .pure fun _ _ _ h => absurd h List.not_mem_nil

end

/-- **Every node that has been read is there**, however much fuel there is. -/
theorem readsNodes (fuel : Nat) : ReadsNodes fuel := by
  induction fuel with
  | zero =>
    exact ⟨fun _ _ => .malformed, fun _ _ _ => .malformed, fun _ _ _ => .malformed,
      fun _ => .malformed, fun _ => .malformed, fun _ => .malformed, fun _ _ => .malformed,
      fun _ _ => .malformed, fun _ _ => .malformed⟩
  | succ fuel ih =>
    exact {
      node := fun place _ => reads_node_succ ih place
      content := fun place p _ => reads_content_succ ih place p
      nodeUnless := fun place ends _ => reads_nodeUnless_succ ih place ends
      blockItems := fun _ => reads_blockItems_succ ih
      innerItems := fun _ => reads_innerItems_succ ih
      blockEntries := fun _ => reads_blockEntries_succ ih
      flowValue := fun ends _ => reads_flowValue_succ ih ends
      flowItems := fun isFirst _ => reads_flowItems_succ ih isFirst
      flowEntries := fun isFirst _ => reads_flowEntries_succ ih isFirst }

theorem passes_ending (fuel : Nat) : Passes (ending fuel) := by
  induction fuel with
  | zero => exact .malformed
  | succ fuel ih =>
    refine passes_peek.bind fun next => ?_
    split
    · exact .pure _
    · exact passes_advance.bind fun _ => ih
    · exact .malformed

theorem reads_documentContent (fuel least : Nat) :
    Reads least (fun size n => n < size) (documentContent fuel) := by
  refine passes_peek.reads.bind fun next _ _ _ => ?_
  split
  · exact reads_absent
  · split
    · exact reads_absent
    · exact (readsNodes fuel).node _ _

theorem reads_document (fuel least : Nat) :
    Reads least (fun size n => n < size) (document fuel) := by
  refine passes_peek.reads.bind fun next _ _ _ => ?_
  have hending : ∀ n size, n < size → Reads size (fun size n => n < size)
      (ending fuel >>= fun _ => pure n) := fun n size hn =>
    (passes_ending fuel).reads.bind fun _ _ hle _ => .pure fun _ hle' => by omega
  split
  · exact reads_absent
  · split
    · refine (passes_directives fuel false).reads.bind fun _ _ _ _ =>
        (passes_expect _).reads.bind fun _ _ _ _ =>
          (reads_documentContent fuel _).bind fun n size _ hn => hending n size hn
    · exact ((readsNodes fuel).node _ _).bind fun n size _ hn => hending n size hn

end Read

/-- The nodes that have been read are those of a document whose root is one of them. -/
theorem Graph.within_of_ofTokens {ts : Tokens} {g : Graph} (h : Graph.ofTokens ts = .ok g) :
    g.root < g.nodes.size ∧ NodesWithin g.nodes.size g.nodes := by
  rw [Graph.ofTokens] at h
  cases hrun : (Read.document (4 * ts.tokens.length + 4)).run
      { tokens := ts.tokens, misreading := ts.misreading } with
  | error e =>
    rw [hrun] at h
    cases h
  | ok r =>
    rw [hrun] at h
    cases h
    obtain ⟨hr, -, hroot⟩ := Read.reads_document _ 0 _ r.1 r.2
      ⟨fun n node hn => by simp at hn, fun a ha => absurd ha List.not_mem_nil⟩ (Nat.zero_le _) hrun
    exact ⟨hroot, hr.nodes⟩

end EntityScaffold.Yaml
