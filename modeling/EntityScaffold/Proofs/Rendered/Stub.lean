import EntityScaffold.Proofs.Regular
import EntityScaffold.Proofs.Rendered.Qualified

/-!
# A new entity is read back

The text of a new entity, in plain namespaces, is that of a class made by edits alone, so it is read
as that class.

* `stubClass` — the class of a new entity.
* `regular_stubClass` — it is made like one that edits lead to.
* `parse_entityStub` — the text of a new entity is read as this class.
-/

set_option autoImplicit false

namespace EntityScaffold

open Text Source

/-! ## Clauses of the header -/

/-- A keyword, a namespace, and a semicolon. -/
def clauseRow (keyword ns : Text) : Row := ⟨keyword ++ ns ++ ";", keyword ++ ns ++ ";"⟩

theorem quiet_clauseRow {keyword ns : Text} (hcode : ∀ c ∈ keyword, isCode c = true)
    (hline : '\n' ∉ keyword) (hequal : '=' ∉ keyword)
    (hwords : headRun headWords keyword = some headWords) (h : PlainNamespace ns) :
    (clauseRow keyword ns).Quiet where
  shows := by
    refine .code fun c hc => ?_
    have hsemi : ∀ c ∈ (";" : Text), isCode c = true := by decide
    rcases List.mem_append.mp hc with hc | hc
    · rcases List.mem_append.mp hc with hc | hc
      · exact hcode c hc
      · exact forall_isNamespaceChar (by decide) (h c hc)
    · exact hsemi c hc
  oneLine := by
    have hns : '\n' ∉ ns := h.notMem (by decide)
    simp [clauseRow, hline, hns]
  last c hc := by
    rw [clauseRow, getLast?_append_of_ne_nil _ (by decide)] at hc
    have : c = ';' := by simpa using hc.symm
    rw [this]
    decide
  words := by
    obtain ⟨words, hns⟩ := headRun_namespace h headWords
    have hsemi : headRun words (";" : Text) = some headWords := by
      have hstep : headStep words ';' = some headWords := by
        rw [headStep, if_neg (by decide), if_neg (by decide), if_pos (by decide)]
      change headRun words [';'] = _
      rw [headRun_cons, hstep]
      rfl
    refine ⟨headWords, ?_, by decide⟩
    rw [clauseRow, headRun_append, headRun_append, hwords, Option.bind_some, hns,
      Option.bind_some, hsemi]
  after := by
    have hns : '=' ∉ ns := h.notMem (by decide)
    refine Piece.equalRun_of_notMem ?_
    simp [clauseRow, hequal, hns]

/-! ## The beginning of the file -/

/-- The rows behind the opening tag, up to the attribute of the class. -/
def stubRows (ns : Text) (imports : List Text) : List Row :=
  clauseRow "namespace " ns :: Row.blank :: (imports.map (clauseRow "use ") ++
    [Row.blank, Row.ofPieces [.group, .code "Entity]"]])

/-- The file of a new entity up to the brace that opens the class. -/
def stubOpening (ns : Text) (imports : List Text) (name : Text) : Text :=
  ofLines (tagLines ++ (stubRows ns imports).map (·.text)) ++ '\n' :: ("class " ++ name ++ "\n\x7b")

theorem sound_entityRow : (Row.ofPieces [.group, .code "Entity]"]).Sound := by
  have hfits : Piece.fits [.group, .code "Entity]"] = true := rfl
  refine (Row.ofPieces_sound hfits fun p hp => ?_).1
  simp only [List.mem_cons, List.not_mem_nil, or_false] at hp
  rcases hp with rfl | rfl <;> trivial

theorem quiet_stubRows {ns : Text} {imports : List Text} (hns : PlainNamespace ns)
    (himports : ∀ x ∈ imports, PlainNamespace x) : ∀ r ∈ stubRows ns imports, r.Quiet := by
  intro r hr
  simp only [stubRows, List.mem_cons, List.mem_append, List.mem_map, List.not_mem_nil,
    or_false] at hr
  rcases hr with rfl | rfl | ⟨x, hx, rfl⟩ | rfl | rfl
  · exact quiet_clauseRow (by decide) (by decide) (by decide) (by decide) hns
  · exact Row.blank_quiet
  · exact quiet_clauseRow (by decide) (by decide) (by decide) (by decide) (himports x hx)
  · exact Row.blank_quiet
  · exact sound_entityRow.quiet

/-- The imports are in layout, whatever steady lines follow the blank line behind them. -/
theorem isChain_imports {imports : List Text} (himports : ∀ x ∈ imports, PlainNamespace x)
    {ks : List Text} (hk : ([] :: ks).IsChain Neighbours) :
    (imports.map (fun x => (clauseRow "use " x).text) ++ [] :: ks).IsChain Neighbours := by
  induction imports with
  | nil => exact hk
  | cons x imports ih =>
    have hrest := ih fun y hy => himports y (List.mem_cons_of_mem x hy)
    have hne : (clauseRow "use " x).text ≠ [] := by simp [clauseRow]
    have himport : IsImport (clauseRow "use " x).text := by
      refine ⟨" " ++ x, ?_, rfl⟩
      have hx : ';' ∉ x := (himports x (by simp)).notMem (by decide)
      simp [hx]
    refine List.IsChain.cons hrest fun k hk => ⟨.inl hne, fun _ => ⟨himport, ?_⟩⟩
    cases imports with
    | nil => exact .inl (by simpa using hk.symm)
    | cons y ys =>
      have : k = (clauseRow "use " y).text := by simpa using hk.symm
      rw [this]
      exact .inr rfl

/-- **The beginning of a new entity's file can be read again.** -/
theorem opening_stub {ns name : Text} {imports : List Text} (hns : PlainNamespace ns)
    (himports : ∀ x ∈ imports, PlainNamespace x) (hne : imports ≠ []) (hname : Name name) :
    Opening (stubOpening ns imports name) name (stubRows ns imports) where
  text := rfl
  quiet := quiet_stubRows hns himports
  first := ⟨'n', _, _, rfl, by decide⟩
  chain := by
    have hentity : Steady (Row.ofPieces [.group, .code "Entity]"]).text := ⟨by decide, by decide⟩
    have hnamespace : Steady (clauseRow "namespace " ns).text := ⟨by simp [clauseRow], rfl⟩
    have htag : ∀ l ∈ [openTag, strictTypes], Steady l := by
      intro l hl
      simp only [List.mem_cons, List.not_mem_nil, or_false] at hl
      rcases hl with rfl | rfl <;> exact ⟨by decide, by decide⟩
    have hend : ([] :: ((Row.ofPieces [.group, .code "Entity]"]).text :: ["class " ++ name])).IsChain
        Neighbours :=
      .cons_cons (neighbours_empty hentity.1)
        (.cons_cons (hentity.neighbours _) (.singleton _))
    have hrest := isChain_imports himports hend
    have hblank : ([] :: (imports.map (fun x => (clauseRow "use " x).text) ++
        [] :: ((Row.ofPieces [.group, .code "Entity]"]).text :: ["class " ++ name]))).IsChain
        Neighbours := by
      refine List.IsChain.cons hrest fun k hk => neighbours_empty ?_
      obtain ⟨x, xs, rfl⟩ := List.exists_cons_of_ne_nil hne
      have : k = (clauseRow "use " x).text := by simpa using hk.symm
      simp [this, clauseRow]
    have hsplit : tagLines ++ (stubRows ns imports).map (·.text) ++ ["class " ++ name] =
        [openTag, strictTypes] ++ ([] :: (clauseRow "namespace " ns).text :: [] ::
          (imports.map (fun x => (clauseRow "use " x).text) ++
            [] :: ((Row.ofPieces [.group, .code "Entity]"]).text :: ["class " ++ name]))) := by
      simp [tagLines, stubRows, Row.blank, Function.comp_def]
    rw [hsplit]
    refine isChain_steady htag ?_
    exact .cons_cons (neighbours_empty hnamespace.1) (.cons_cons (hnamespace.neighbours _) hblank)
  start := hname.start
  plain := hname.plain

/-! ## The members -/

/-- The arguments of the attribute of the key. -/
def keyPieces : List Piece :=
  [.code "type: ", .quoted "INT", .code ", autoIncrement: true, primaryKey: true"]

def keyRows : List Row := propertyRows [] "Field" keyPieces "int" "id" []

/-- The numeric key of a new entity. -/
def keyProperty : Property :=
  ⟨"id", ofLines ["#[Field(type: 'INT', autoIncrement: true, primaryKey: true)]",
    "public int $id;"], ["Field"]⟩

theorem tidy_keyProperty : Tidy (.property keyProperty) keyRows := by
  have hparts : PropertyParts [] "Field" keyPieces "int" "id" [] :=
    { front := .inl rfl
      kind := ⟨⟨by decide, by decide⟩, ⟨by decide, by decide, by decide⟩⟩
      arguments :=
        { scan := ⟨_, rfl⟩
          plain := by
            intro p hp
            simp only [keyPieces, List.mem_cons, List.not_mem_nil, or_false] at hp
            rcases hp with rfl | rfl | rfl
            exacts [trivial, (by decide : Plain "INT"), trivial]
          avoids := by decide }
      type := ⟨isType_native (t := "int") (by decide) false, by decide⟩
      name := ⟨by decide, by decide⟩
      rest := .inl rfl }
  have htext : ofLines (keyRows.map (·.text)) = keyProperty.text := by decide
  have htidy := tidy_property hparts
  rw [← keyRows, htext] at htidy
  exact htidy

/-- The accessor of the key. -/
def keyGetter : Accessor := .getter "id" "int"

theorem isPlain_keyGetter : keyGetter.IsPlain :=
  ⟨by decide, isType_native (t := "int") (by decide) false⟩

/-! ## The class -/

/-- The qualified names of the attributes that a new entity imports. -/
def stubImports (c : Config) : List Text :=
  Render.importedAttributes.map fun a => c.attributeNamespace ++ "\\" ++ a

/-- The class of a new entity. -/
def stubClass (c : Config) (name : Text) (ns : Option Text) : ClassFile where
  className := name
  opening := stubOpening (Render.stubNamespace c ns) (stubImports c) name
  items := spaced [.property keyProperty, .method (constructorOf c.indent []),
    .method (keyGetter.method c.indent)]
  closing := "\x7d\n"
  indent := c.indent
  path := none

section

variable {c : Config} {name : Text} {ns : Option Text}

/-- The namespaces that the text of a new entity shows, and its indentation. -/
structure PlainStub (c : Config) (name : Text) (ns : Option Text) : Prop where
  ns : PlainNamespace (Render.stubNamespace c ns)
  attributes : PlainNamespace c.attributeNamespace
  indentSize : 0 < c.indentSize
  name : Name name

theorem isIndent_config (c : Config) : IsIndent c.indent := by
  intro d hd
  rw [List.eq_of_mem_replicate hd]
  decide

theorem plain_stubImports (h : PlainNamespace c.attributeNamespace) :
    ∀ x ∈ stubImports c, PlainNamespace x := by
  intro x hx
  obtain ⟨a, ha, rfl⟩ := List.mem_map.mp hx
  have hslash : PlainNamespace "\\" := by decide
  have hplain : ∀ a ∈ Render.importedAttributes, PlainNamespace a := by decide
  exact (h.append hslash).append (hplain a ha)

/-- **A new entity is a class like those that edits lead to.** -/
theorem regular_stubClass (h : PlainStub c name ns) : Regular (stubClass c name ns) where
  opening := ⟨_, opening_stub h.ns (plain_stubImports h.attributes) (List.cons_ne_nil _ _) h.name⟩
  members m hm := by
    have hi := isIndent_config c
    rw [ClassFile.members, stubClass, membersOf_spaced] at hm
    simp only [List.mem_cons, List.not_mem_nil, or_false] at hm
    rcases hm with rfl | rfl | rfl
    · exact regular_property ⟨_, tidy_keyProperty⟩
    · exact regular_constructorOf hi (by simp)
    · exact keyGetter.regular hi isPlain_keyGetter _
  nonempty := by
    rw [ClassFile.properties_eq, ClassFile.members, stubClass, membersOf_spaced]
    exact List.cons_ne_nil _ _
  closing := rfl
  indent := isIndent_config c
  indented := by
    have := h.indentSize
    simp only [stubClass, Config.indent, ne_eq, List.replicate_eq_nil_iff]
    omega

/-- The lines of the class body. -/
theorem bodyRows_stub (i : Text) :
    (bodyRows i (.property keyProperty, keyRows)
      [(.method (constructorOf i []), constructorRows i []),
        (.method (keyGetter.method i), keyGetter.rows i)]).map (·.text) =
      [i ++ "#[Field(type: 'INT', autoIncrement: true, primaryKey: true)]", i ++ "public int $id;",
        [], i ++ "public function __construct()", i ++ "\x7b", i ++ "\x7d",
        [], i ++ "public function getId(): int", i ++ "\x7b", i ++ (i ++ "return $this->id;"),
        i ++ "\x7d"] := by
  rfl

/-- **The text of a new entity is that of its class.** -/
theorem entityStub_eq (h : PlainStub c name ns) :
    Render.entityStub c name ns = (stubClass c name ns).serialize := by
  have hi := isIndent_config c
  have hopening := opening_stub h.ns (plain_stubImports h.attributes) (List.cons_ne_nil _ _) h.name
  have hmembers : (stubClass c name ns).members = .property keyProperty ::
      ([(.method (constructorOf c.indent []), constructorRows c.indent []),
        (.method (keyGetter.method c.indent), keyGetter.rows c.indent)] : List WrittenMember).map
          Prod.fst := by
    rw [ClassFile.members, stubClass, membersOf_spaced]
    rfl
  have htidy : AllTidy [(.method (constructorOf c.indent []), constructorRows c.indent []),
      (.method (keyGetter.method c.indent), keyGetter.rows c.indent)] := by
    intro p hp
    simp only [List.mem_cons, List.not_mem_nil, or_false] at hp
    rcases hp with rfl | rfl
    · exact tidy_constructorOf hi (by simp)
    · exact keyGetter.tidy hi isPlain_keyGetter
  have htext := text_eq_ofLines (i := c.indent) (p := (.property keyProperty, keyRows)) hopening
    tidy_keyProperty htidy
  have hlines : tagLines ++ (fileLines name c.indent (stubRows (Render.stubNamespace c ns)
      (stubImports c)) (.property keyProperty, keyRows)
      [(.method (constructorOf c.indent []), constructorRows c.indent []),
        (.method (keyGetter.method c.indent), keyGetter.rows c.indent)] ++ [[]]) =
      Render.headerLines (Render.stubNamespace c ns)
        (Render.importedAttributes.map fun a => c.attributeNamespace ++ "\\" ++ a) ++
        Render.entityClassLines c.indent name := by
    have hheader : tagLines ++ (stubRows (Render.stubNamespace c ns) (stubImports c)).map (·.text) =
        Render.headerLines (Render.stubNamespace c ns) (stubImports c) ++ [("#[Entity]" : Text)] := by
      simp only [stubRows, tagLines, Render.headerLines, List.map_cons, List.map_append,
        List.map_map, List.cons_append, List.nil_append, List.append_assoc]
      rfl
    have hassoc : ∀ (t h b : List Text) (k o e : Text),
        t ++ ((h ++ [k] ++ (o :: (b ++ [e]))) ++ [[]]) = (t ++ h) ++ (k :: o :: (b ++ [e, []])) := by
      intros
      simp
    have hreturn : ∀ i s : Text, i ++ (i ++ s) = i ++ i ++ s := by
      intros
      rw [List.append_assoc]
    rw [fileLines, bodyRows_stub, hassoc, hheader, hreturn, List.append_assoc]
    rfl
  rw [(regular_stubClass h).settled.serialize_eq, render_normalized
    (p := (.property keyProperty, keyRows)) tidy_keyProperty htidy hmembers, Render.entityStub,
    ← hlines, ← htext]
  rfl

theorem normalized_stubClass : (stubClass c name ns).normalized = stubClass c name ns := by
  rw [ClassFile.normalized, ClassFile.members, stubClass, membersOf_spaced]

/-- **The text of a new entity is read as its class.** -/
theorem parse_entityStub (h : PlainStub c name ns) (path : Option Text) :
    ClassFile.parse (Render.entityStub c name ns) path =
      .ok { stubClass c name ns with path := path } := by
  rw [entityStub_eq h, (regular_stubClass h).settled.parse_serialize, normalized_stubClass]

end

end EntityScaffold
