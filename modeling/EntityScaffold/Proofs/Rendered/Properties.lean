import EntityScaffold.Proofs.Rendered.Accessors

/-!
# Rendered properties are read back

The property of a field or of a relation, and constructors that make collections empty.

* `fieldProperty`, `relationProperty` — the properties as they are read;
  `tidy_fieldProperty`, `tidy_relationRows`, `tidy_relationProperty`.
* `constructorOf` — the constructor that makes the given collections empty;
  `tidy_constructorOf`.
-/

set_option autoImplicit false

namespace EntityScaffold

open Text Source

/-! ## Properties -/

/-- A property whose parts are plain is read back. -/
theorem propertyOf_of_tidy {p : Property} {rows : List Row} (h : Tidy (.property p) rows) :
    Edit.propertyOf p.text = .ok p := by
  have hread : parseMember p.text = .ok (.property p) := parseMember_of_tidy h
  rw [Edit.propertyOf, hread]

theorem joinWith_cons (s a : Text) (ts : List Text) :
    joinWith s (a :: ts) = a ++ ts.flatMap (s ++ ·) := by
  induction ts generalizing a with
  | nil => simp [joinWith]
  | cons t ts ih =>
    have hstep : joinWith s (a :: t :: ts) = a ++ s ++ joinWith s (t :: ts) := rfl
    rw [hstep, ih, List.flatMap_cons, List.append_assoc, List.append_assoc]

/-- The arguments of a scalar field's attribute. -/
def fieldPieces (dbType : Text) (nullable : Bool) : List Piece :=
  [.code "type: ", .quoted dbType, .code (if nullable then ", nullable: true" else [])]

theorem arguments_fieldPieces {dbType : Text} (h : Plain dbType) (nullable : Bool) :
    Arguments (fieldPieces dbType nullable) where
  scan := by cases nullable <;> exact ⟨_, rfl⟩
  plain p hp := by
    simp only [fieldPieces, List.mem_cons, List.not_mem_nil, or_false] at hp
    rcases hp with rfl | rfl | rfl
    exacts [trivial, h, trivial]
  avoids c hc := by
    simp only [List.mem_cons, List.not_mem_nil, or_false] at hc
    rcases hc with rfl | rfl | rfl | rfl <;> cases nullable <;> rfl

/-- The property of a scalar field. -/
def fieldProperty (name : Text) (type : FieldType) (php : Text) (nullable : Bool) : Property :=
  ⟨name, Render.fieldProperty name type.name php nullable, ["Field"]⟩

/-- **The property of a field is tidy.** -/
theorem tidy_fieldProperty {name php : Text} (hname : Name name) (hphp : IsFieldType php)
    (type : FieldType) (nullable : Bool) :
    ∃ rows, Tidy (.property (fieldProperty name type php nullable)) rows := by
  have hparts : PropertyParts [] "Field" (fieldPieces type.name nullable)
      (Render.nullableType php nullable) name (if nullable then " = null" else []) :=
    { front := .inl rfl
      kind := ⟨⟨by decide, by decide⟩, ⟨by decide, by decide, by decide⟩⟩
      arguments := arguments_fieldPieces (plain_fieldTypeName type) nullable
      type := hphp nullable
      name := hname
      rest := by cases nullable <;> simp }
  have htidy := tidy_property hparts
  have hassoc : ∀ g k o y q d q' n e p t s x r c : Text,
      ofLines [g ++ (k ++ (o ++ (y ++ ((q ++ (d ++ q')) ++ (n ++ (e ++ [])))))),
        p ++ (t ++ (s ++ (x ++ (r ++ (c ++ [])))))] =
      ofLines [g ++ k ++ o ++ y ++ q ++ d ++ q' ++ n ++ e, p ++ t ++ s ++ x ++ r ++ c] := by
    intros
    simp only [List.append_assoc, List.append_nil]
  have htext : ofLines ((propertyRows [] "Field" (fieldPieces type.name nullable)
      (Render.nullableType php nullable) name (if nullable then " = null" else [])).map (·.text)) =
        Render.fieldProperty name type.name php nullable := by
    exact hassoc "#[" "Field" "(" "type: " "'" type.name "'" _ ")]" "public "
      (Render.nullableType php nullable) " $" name _ ";"
  rw [htext] at htidy
  exact ⟨_, htidy⟩

/-! ## Relations -/

/-- The argument that names the property on the other side. -/
def otherPieces (mapped : Bool) : Option Text → List Piece
  | none | some [] => []
  | some other => [.code (if mapped then ", mappedBy: " else ", inversedBy: "), .quoted other]

/-- The argument that names the join table. -/
def joinPieces (shown : Bool) : Option JoinTable → List Piece
  | some j =>
    if shown then
      [.code ", joinTable: new JoinTable(name: ", .quoted j.name, .code ", joinColumn: ",
        .quoted j.joinColumn, .code ", inverseColumn: ", .quoted j.inverseColumn, .code ")"]
    else []
  | none => []

/-- The arguments of a relation's attribute. -/
def relationPieces (target : Text) (mapped : Bool) (other : Option Text) (shown : Bool)
    (joinTable : Option JoinTable) (nullable : Bool) : List Piece :=
  [.code "targetEntity: ", .type target, .code "::class"] ++ otherPieces mapped other ++
    joinPieces shown joinTable ++ if nullable then [.code ", nullable: true"] else []

/-- The fixed code of the arguments. -/
def relationCodes : List Text :=
  ["targetEntity: ", "::class", ", mappedBy: ", ", inversedBy: ",
    ", joinTable: new JoinTable(name: ", ", joinColumn: ", ", inverseColumn: ", ")",
    ", nullable: true"]

/-- What holds of the fixed code and of the names holds of every piece of the arguments. -/
theorem forall_relationPieces {P : Piece → Prop} {target : Text} {other : Option Text}
    {joinTable : Option JoinTable} (hcode : ∀ t ∈ relationCodes, P (.code t))
    (htarget : P (.type target)) (hother : ∀ o ∈ other, P (.quoted o))
    (hjoin : ∀ j ∈ joinTable, P (.quoted j.name) ∧ P (.quoted j.joinColumn) ∧
      P (.quoted j.inverseColumn)) (mapped shown nullable : Bool) :
    ∀ p ∈ relationPieces target mapped other shown joinTable nullable, P p := by
  intro p hp
  simp only [relationPieces, List.mem_append, List.mem_cons, List.not_mem_nil, or_false] at hp
  rcases hp with (((rfl | rfl | rfl) | hp) | hp) | hp
  · exact hcode _ (by simp [relationCodes])
  · exact htarget
  · exact hcode _ (by simp [relationCodes])
  · rcases other with _ | _ | ⟨c, other⟩
    · cases hp
    · cases hp
    · simp only [otherPieces, List.mem_cons, List.not_mem_nil, or_false] at hp
      rcases hp with rfl | rfl
      · exact hcode _ (by cases mapped <;> simp [relationCodes])
      · exact hother _ rfl
  · cases joinTable with
    | none => cases hp
    | some j =>
      cases shown with
      | false => cases hp
      | true =>
        simp only [joinPieces, if_true, List.mem_cons, List.not_mem_nil, or_false] at hp
        obtain ⟨hname, hcolumn, hinverse⟩ := hjoin j rfl
        rcases hp with rfl | rfl | rfl | rfl | rfl | rfl | rfl
        exacts [hcode _ (by simp [relationCodes]), hname, hcode _ (by simp [relationCodes]),
          hcolumn, hcode _ (by simp [relationCodes]), hinverse, hcode _ (by simp [relationCodes])]
  · cases nullable with
    | false => cases hp
    | true =>
      rw [if_pos rfl, List.mem_singleton] at hp
      rw [hp]
      exact hcode _ (by simp [relationCodes])

/-- Whether the names in a join table are plain. -/
def JoinTable.IsPlain (j : JoinTable) : Prop :=
  Plain j.name ∧ Plain j.joinColumn ∧ Plain j.inverseColumn

/-- The pieces can be read whatever the words of a header that precede them. -/
def Resets (ps : List Piece) : Prop :=
  ∀ words, ∃ words', Piece.scanAll ⟨words, false, []⟩ ps = some ⟨words', false, []⟩

theorem Resets.append {ps qs : List Piece} (hp : Resets ps) (hq : Resets qs) :
    Resets (ps ++ qs) := by
  intro words
  obtain ⟨words', hw⟩ := hp words
  obtain ⟨words'', hw'⟩ := hq words'
  exact ⟨words'', by rw [Piece.scanAll_append, hw, Option.bind_some, hw']⟩

theorem resets_nil : Resets [] := fun words => ⟨words, rfl⟩

theorem resets_otherPieces (mapped : Bool) (other : Option Text) :
    Resets (otherPieces mapped other) := by
  rcases other with _ | _ | ⟨c, other⟩
  · exact resets_nil
  · exact resets_nil
  · intro words
    cases mapped <;> exact ⟨_, rfl⟩

theorem resets_joinPieces (shown : Bool) (joinTable : Option JoinTable) :
    Resets (joinPieces shown joinTable) := by
  cases joinTable with
  | none => exact resets_nil
  | some j =>
    cases shown with
    | false => exact resets_nil
    | true => exact fun words => ⟨_, rfl⟩

theorem arguments_relationPieces {target : Text} (htarget : IsType target) (mapped : Bool)
    {other : Option Text} (hother : ∀ o ∈ other, Plain o) (shown : Bool)
    {joinTable : Option JoinTable} (hjoin : ∀ j ∈ joinTable, j.IsPlain) (nullable : Bool) :
    Arguments (relationPieces target mapped other shown joinTable nullable) where
  scan := by
    have hend : Resets (if nullable then [.code ", nullable: true"] else []) := by
      cases nullable with
      | false => exact resets_nil
      | true => exact fun words => ⟨_, rfl⟩
    have hbase : ∃ words, Piece.scanAll Piece.lineStart
        [.code "targetEntity: ", .type target, .code "::class"] = some ⟨words, false, []⟩ :=
      ⟨_, rfl⟩
    obtain ⟨words, hbase⟩ := hbase
    obtain ⟨words', hrest⟩ := (((resets_otherPieces mapped other).append
      (resets_joinPieces shown joinTable)).append hend) words
    refine ⟨words', ?_⟩
    rw [relationPieces, List.append_assoc, List.append_assoc, Piece.scanAll_append, hbase,
      Option.bind_some, ← List.append_assoc, hrest]
  plain := forall_relationPieces (fun _ _ => trivial) htarget hother hjoin mapped shown nullable
  avoids c hc := by
    have hother : (otherPieces mapped other).all (·.avoids c) = true := by
      simp only [List.mem_cons, List.not_mem_nil, or_false] at hc
      rcases other with _ | _ | ⟨d, other⟩
      · rfl
      · rfl
      · rcases hc with rfl | rfl | rfl | rfl <;> cases mapped <;> rfl
    have hjoin : (joinPieces shown joinTable).all (·.avoids c) = true := by
      simp only [List.mem_cons, List.not_mem_nil, or_false] at hc
      cases joinTable with
      | none => rfl
      | some j => rcases hc with rfl | rfl | rfl | rfl <;> cases shown <;> rfl
    rw [relationPieces, List.all_append, List.all_append, List.all_append, hother, hjoin]
    simp only [List.mem_cons, List.not_mem_nil, or_false] at hc
    rcases hc with rfl | rfl | rfl | rfl <;> cases nullable <;> rfl

/-- The text of pieces, one behind the other. -/
def piecesText (ps : List Piece) : Text := ps.flatMap Piece.text

theorem piecesText_append (ps qs : List Piece) :
    piecesText (ps ++ qs) = piecesText ps ++ piecesText qs :=
  List.flatMap_append

/-- The text of the property on the other side, with the mark that `Render.relationArguments` gives
it. -/
theorem piecesText_otherPieces (mapped : Bool) (other : Option Text) :
    piecesText (otherPieces mapped other) =
      (match other with
        | none | some [] => []
        | some other => [(if mapped then ("mappedBy: '" : Text) else "inversedBy: '") ++ other ++
            "'"] : List Text).flatMap ((", " : Text) ++ ·) := by
  have hquoted : ∀ s k o q : Text,
      s ++ k ++ (q ++ (o ++ q) ++ []) = s ++ (k ++ q ++ o ++ q) ++ [] := by
    intros
    simp only [List.append_assoc]
  rcases other with _ | _ | ⟨c, other⟩
  · rfl
  · rfl
  · cases mapped
    · exact hquoted ", " "inversedBy: " (c :: other) "'"
    · exact hquoted ", " "mappedBy: " (c :: other) "'"

/-- The text of the join table, which only one side of a relation has. -/
theorem piecesText_joinPieces (shown : Bool) (joinTable : Option JoinTable) :
    piecesText (joinPieces shown joinTable) =
      (match joinTable with
        | some j =>
          if shown then
            ["joinTable: new JoinTable(name: '" ++ j.name ++ "', joinColumn: '" ++ j.joinColumn ++
              "', inverseColumn: '" ++ j.inverseColumn ++ "')"]
          else []
        | none => [] : List Text).flatMap ((", " : Text) ++ ·) := by
  have htable : ∀ s a q n b c i d e : Text,
      s ++ a ++ ((q ++ (n ++ q)) ++
          (b ++ ((q ++ (c ++ q)) ++ (i ++ ((q ++ (d ++ q)) ++ (e ++ [])))))) =
        s ++ (a ++ q ++ n ++ (q ++ b ++ q) ++ c ++ (q ++ i ++ q) ++ d ++ (q ++ e)) ++ [] := by
    intros
    simp only [List.append_assoc]
  cases joinTable with
  | none => rfl
  | some j =>
    cases shown with
    | false => rfl
    | true =>
      exact htable ", " "joinTable: new JoinTable(name: " "'" j.name ", joinColumn: " j.joinColumn
        ", inverseColumn: " j.inverseColumn ")"

/-- The pieces of the arguments have the text that is rendered. -/
theorem piecesText_relationPieces (kind : RelationKind) (target : Text) (owning : Bool)
    (other : Option Text) (joinTable : Option JoinTable) (inverse nullable : Bool) :
    piecesText (relationPieces target (kind = .oneToOne && inverse || !owning) other
        (kind = .manyToMany && owning) joinTable (nullable && !kind.isCollection)) =
      joinWith ", "
        (Render.relationArguments kind target owning other joinTable inverse nullable) := by
  have hnullable : ∀ n : Bool, piecesText (if n then [.code ", nullable: true"] else []) =
      (if n then [("nullable: true" : Text)] else []).flatMap ((", " : Text) ++ ·) := by
    intro n
    cases n <;> rfl
  have hbase : piecesText [.code "targetEntity: ", .type target, .code "::class"] =
      "targetEntity: " ++ target ++ "::class" := by
    have hassoc : ∀ a t c : Text, a ++ (t ++ (c ++ [])) = a ++ t ++ c := by
      intros
      simp only [List.append_assoc, List.append_nil]
    exact hassoc _ _ _
  unfold Render.relationArguments
  rw [List.cons_append, List.cons_append, joinWith_cons, List.flatMap_append, List.flatMap_append,
    relationPieces, piecesText_append, piecesText_append, piecesText_append, hbase,
    piecesText_otherPieces, piecesText_joinPieces, hnullable]
  have hassoc : ∀ b o j n : Text, b ++ o ++ j ++ n = b ++ (o ++ j ++ n) := by
    intros
    simp only [List.append_assoc]
  exact hassoc _ _ _ _

/-- The property of a relation. -/
def relationProperty (r : Relation) (property target : Text) : Property :=
  ⟨property, Edit.relationText r property target, [r.kind.attributeClass]⟩

/-- The comment on the elements of a collection. -/
def elementsRows (kind : RelationKind) (target : Text) : List Row :=
  if kind.isCollection then [Row.ofPieces [.elements target]] else []

/-- The type of a relation's property. -/
def relationType (kind : RelationKind) (target : Text) : Text :=
  if kind.isCollection then "array" else '?' :: target

/-- The arguments of a relation's attribute. -/
def Relation.pieces (r : Relation) (target : Text) : List Piece :=
  relationPieces target (r.kind = .oneToOne && (r.kind = .oneToOne && !r.isOwningSide) ||
    !r.isOwningSide) r.otherProperty (r.kind = .manyToMany && r.isOwningSide) r.joinTable
    (r.nullable && !r.kind.isCollection)

/-- The rows of a relation's property. -/
def Relation.rows (r : Relation) (property target : Text) : List Row :=
  propertyRows (elementsRows r.kind target) r.kind.attributeClass (r.pieces target)
    (relationType r.kind target) property (if r.kind.isCollection then [] else " = null")

theorem text_relationRows (r : Relation) (property target : Text) :
    ofLines ((r.rows property target).map (·.text)) = Edit.relationText r property target := by
  have hattribute : (Row.ofPieces (attributePieces r.kind.attributeClass (r.pieces target))).text =
      Render.relationAttribute r.kind target r.isOwningSide r.otherProperty r.joinTable
        (r.kind = .oneToOne && !r.isOwningSide) r.nullable := by
    have hargs : piecesText (r.pieces target) = _ := piecesText_relationPieces r.kind target
      r.isOwningSide r.otherProperty r.joinTable (r.kind = .oneToOne && !r.isOwningSide) r.nullable
    have hassoc : ∀ g k o c : Text,
        piecesText (.code g :: .code k :: .code o :: (r.pieces target ++ [.code c])) =
          g ++ k ++ o ++ piecesText (r.pieces target) ++ c := by
      intro g k o c
      have : piecesText (.code g :: .code k :: .code o :: (r.pieces target ++ [.code c])) =
        g ++ (k ++ (o ++ piecesText (r.pieces target ++ [.code c]))) := rfl
      rw [this, piecesText_append]
      simp [piecesText, Piece.text]
    rw [Render.relationAttribute, ← hargs]
    exact hassoc "#[" r.kind.attributeClass "(" ")]"
  have hdeclaration : ∀ p t s n e c : Text, p ++ (t ++ (s ++ (n ++ (e ++ (c ++ []))))) =
      p ++ t ++ s ++ n ++ (e ++ c) := by
    intros
    simp only [List.append_assoc, List.append_nil]
  have helements : ∀ o d t e c : Text, o ++ (d ++ t ++ e) ++ c ++ [] = o ++ d ++ t ++ (e ++ c) := by
    intros
    simp only [List.append_assoc, List.append_nil]
  have hline : ∀ type e : Text,
      (Row.ofPieces (declarationPieces type property e ++ [.code ";"])).text =
        "public " ++ type ++ " $" ++ property ++ (e ++ ";") := fun type e =>
    hdeclaration "public " type " $" property e ";"
  have hcomment : (Row.ofPieces [.elements target]).text = "/** @var " ++ target ++ "[] */" :=
    helements "/*" "* @var " target "[] " "*/"
  rw [Relation.rows, propertyRows, List.map_append, List.map_cons, List.map_cons, hattribute,
    hline, elementsRows, relationType, Edit.relationText, Render.relationProperty]
  cases r.kind.isCollection with
  | true =>
    have hempty : ∀ p a s n c : Text, p ++ a ++ s ++ n ++ ([] ++ c) = p ++ a ++ s ++ n ++ c :=
      fun _ _ _ _ _ => rfl
    simp only [if_true, List.map_cons, List.map_nil, hcomment]
    exact congrArg (fun l => ofLines [_, _, l]) (hempty "public " "array" " $" property ";")
  | false =>
    have hmark : ∀ p t s n e : Text, p ++ '?' :: t ++ s ++ n ++ e = p ++ ['?'] ++ t ++ s ++ n ++ e := by
      intros
      simp only [List.append_assoc, List.cons_append, List.nil_append]
    simp only [Bool.false_eq_true, if_false, List.map_nil, List.nil_append]
    exact congrArg (fun l => ofLines [_, l]) (hmark "public " target " $" property " = null;")

/-- **The property of a relation is tidy.** -/
theorem tidy_relationRows {r : Relation} {property target : Text} (hproperty : Name property)
    (htarget : Capital target) (hother : ∀ o ∈ r.otherProperty, Plain o)
    (hjoin : ∀ j ∈ r.joinTable, j.IsPlain) :
    Tidy (.property (relationProperty r property target)) (r.rows property target) := by
  have hparts : PropertyParts (elementsRows r.kind target) r.kind.attributeClass (r.pieces target)
      (relationType r.kind target) property (if r.kind.isCollection then [] else " = null") :=
    { front := by
        cases hc : r.kind.isCollection with
        | true => exact .inr ⟨target, htarget.1, by rw [elementsRows, hc, if_pos rfl]⟩
        | false => exact .inl (by rw [elementsRows, hc, if_neg Bool.false_ne_true])
      kind := by cases r.kind <;> exact ⟨⟨by decide, by decide⟩, ⟨by decide, by decide, by decide⟩⟩
      arguments := arguments_relationPieces htarget.isType _ hother _ hjoin _
      type := by
        cases hc : r.kind.isCollection with
        | true =>
          rw [relationType, hc, if_pos rfl]
          exact ⟨isType_array, by decide⟩
        | false =>
          rw [relationType, hc, if_neg Bool.false_ne_true]
          exact ⟨htarget.isType_reference, reference_free target⟩
      name := hproperty
      rest := by cases r.kind <;> simp [RelationKind.isCollection] }
  have htidy := tidy_property hparts
  rw [← Relation.rows, text_relationRows] at htidy
  exact htidy

theorem tidy_relationProperty {r : Relation} {property target : Text} (hproperty : Name property)
    (htarget : Capital target) (hother : ∀ o ∈ r.otherProperty, Plain o)
    (hjoin : ∀ j ∈ r.joinTable, j.IsPlain) :
    ∃ rows, Tidy (.property (relationProperty r property target)) rows :=
  ⟨_, tidy_relationRows hproperty htarget hother hjoin⟩

end EntityScaffold
