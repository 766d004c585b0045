import EntityScaffold.Proofs.Edits
import EntityScaffold.Proofs.Rendered.Attributes
import EntityScaffold.Proofs.Source.Literals

/-!
# What the attribute of a relation passes on

The strings of a relation stand between single quotes as they are.  Whatever stands for itself there
is passed on as it is, and no other argument is.

* `Relation.passed` — the arguments that a relation's attribute shall pass on.
* `Passes` — code that passes arguments on in front of another argument or the end.
* `namedArguments_relationText` — the rendered property passes just these on.
-/

set_option autoImplicit false

namespace EntityScaffold

open Text Source

/-- The strings of a join table. -/
def JoinTable.strings (j : JoinTable) : List Text := [j.name, j.joinColumn, j.inverseColumn]

/-! ## The arguments of a relation -/

/-- The argument for the property on the other side, if there is one. -/
def Relation.otherPassed (r : Relation) : List (Text × List Token) :=
  match given? r.otherProperty with
  | none => []
  | some other => [(if r.isOwningSide then "inversedBy" else "mappedBy", [.string other])]

/-- The argument for the join table, if there is one, and its own arguments. -/
def Relation.joinPassed (r : Relation) : List (Text × List Token) :=
  match r.joinTable with
  | some j =>
    if r.kind = .manyToMany && r.isOwningSide then
      [("joinTable", [.word "new", .word "JoinTable"]), ("name", [.string j.name]),
        ("joinColumn", [.string j.joinColumn]), ("inverseColumn", [.string j.inverseColumn])]
    else []
  | none => []

def Relation.nullPassed (r : Relation) : List (Text × List Token) :=
  if r.nullable && !r.kind.isCollection then [("nullable", [.word "true"])] else []

/-- The arguments that the attribute of a relation shall pass on. -/
def Relation.passed (r : Relation) (target : Text) : List (Text × List Token) :=
  ("targetEntity", [.word target, .mark ':', .mark ':', .word "class"]) ::
    (r.otherPassed ++ r.joinPassed ++ r.nullPassed)

/-! ## Code that passes arguments on -/

/-- What follows an argument: another one, or the end of the arguments. -/
def IsBehindArgument (u : Text) : Prop := ∃ v, u = ',' :: v ∨ u = ')' :: v

/-- The code passes these arguments on, whatever is behind. -/
def Passes (t : Text) (args : List (Text × List Token)) : Prop :=
  ∀ u, IsBehindArgument u → namedArguments (t ++ u) = args ++ namedArguments u

theorem passes_nil : Passes [] [] := fun _ _ => rfl

theorem Passes.append {s t : Text} {args more : List (Text × List Token)} (hs : Passes s args)
    (ht : Passes t more) (hstart : t = [] ∨ t.head? = some ',') :
    Passes (s ++ t) (args ++ more) := by
  intro u hu
  have hbehind : IsBehindArgument (t ++ u) := by
    rcases hstart with rfl | hstart
    · exact hu
    · cases t with
      | nil => cases hstart
      | cons c t =>
        cases hstart
        exact ⟨t ++ u, .inl rfl⟩
  rw [List.append_assoc, hs _ hbehind, ht u hu, List.append_assoc]

section

variable {r : Relation} {target : Text}

theorem passes_target (hne : target ≠ []) (hword : ∀ c ∈ target, isWord c = true) :
    Passes ("targetEntity: " ++ target ++ "::class")
      [("targetEntity", [.word target, .mark ':', .mark ':', .word "class"])] := by
  intro u hu
  have hlex : lex (.code []) ("targetEntity: " ++ target ++ "::class" ++ u) =
      .word "targetEntity" :: .mark ':' :: lex (.code []) (target ++ ':' :: (":class" ++ u)) := by
    rw [List.append_assoc, List.append_assoc]
    rfl
  rw [namedArguments, hlex, lex_word hne hword (by decide)]
  obtain ⟨v, rfl | rfl⟩ := hu <;> rfl

/-- A string in front of what is behind an argument is all of the argument's value. -/
theorem argumentsOf_string (c : Char) (name : Text) {value u : Text} (h : Verbatim value)
    (hu : IsBehindArgument u) :
    argumentsOf (.mark c :: .word name :: .mark ':' :: lex (.string []) (value ++ '\'' :: u)) =
      (name, [.string value]) :: namedArguments u := by
  rw [h.lex_string, List.nil_append, namedArguments]
  obtain ⟨v, rfl | rfl⟩ := hu <;> rfl

theorem passes_other (h : ∀ o ∈ r.otherProperty, Verbatim o) :
    Passes (r.otherArgument.flatMap ((", " : Text) ++ ·)) r.otherPassed := by
  rw [Relation.otherArgument, Relation.otherPassed]
  cases hgiven : given? r.otherProperty with
  | none => exact passes_nil
  | some other =>
    intro u hu
    have hassoc : ∀ s a q o e : Text, s ++ (a ++ (q ++ o ++ e)) ++ [] ++ u =
        s ++ (a ++ (q ++ (o ++ (e ++ u)))) := by
      intros
      simp only [List.append_assoc, List.nil_append]
    refine (congrArg namedArguments (hassoc ", " _ "'" other "'")).trans ?_
    refine Eq.trans ?_ (argumentsOf_string ',' _ (h other (eq_some_of_given? hgiven)) hu)
    cases r.isOwningSide <;> rfl

theorem passes_join (h : ∀ j ∈ r.joinTable, ∀ t ∈ j.strings, Verbatim t) :
    Passes (r.joinArgument.flatMap ((", " : Text) ++ ·)) r.joinPassed := by
  rw [Relation.joinArgument, Relation.joinPassed]
  cases hjoin : r.joinTable with
  | none => exact passes_nil
  | some j =>
    simp only
    split
    · have hstrings := h j hjoin
      simp only [JoinTable.strings, List.forall_mem_cons] at hstrings
      obtain ⟨hname, hcolumn, hinverse, -⟩ := hstrings
      intro u hu
      have hassoc : ∀ s a n b c d i e : Text, s ++ (a ++ n ++ b ++ c ++ d ++ i ++ e) ++ [] ++ u =
          s ++ (a ++ (n ++ (b ++ (c ++ (d ++ (i ++ (e ++ u))))))) := by
        intros
        simp only [List.append_assoc, List.nil_append]
      refine (congrArg namedArguments (hassoc ", " "joinTable: new JoinTable(name: '" j.name
        "', joinColumn: '" j.joinColumn "', inverseColumn: '" j.inverseColumn "')")).trans ?_
      -- each of the three strings is in front of the next argument or the end
      have hthird : IsBehindArgument (')' :: u) := ⟨u, .inr rfl⟩
      have hsecond : IsBehindArgument
          (", inverseColumn: '" ++ (j.inverseColumn ++ '\'' :: ')' :: u)) := ⟨_, .inl rfl⟩
      have hfirst : IsBehindArgument (", joinColumn: '" ++ (j.joinColumn ++ '\'' ::
          (", inverseColumn: '" ++ (j.inverseColumn ++ '\'' :: ')' :: u)))) := ⟨_, .inl rfl⟩
      have hinverse := argumentsOf_string ',' "inverseColumn" hinverse hthird
      have hcolumn := argumentsOf_string ',' "joinColumn" hcolumn hsecond
      have hname := argumentsOf_string '(' "name" hname hfirst
      exact congrArg (List.cons _) (hname.trans (congrArg (List.cons _)
        (hcolumn.trans (congrArg (List.cons _) hinverse))))
    · exact passes_nil

theorem passes_null : Passes (r.nullArgument.flatMap ((", " : Text) ++ ·)) r.nullPassed := by
  rw [Relation.nullArgument, Relation.nullPassed]
  split
  · rintro u ⟨v, rfl | rfl⟩ <;> rfl
  · exact passes_nil

theorem flatMap_separated (ts : List Text) :
    ts.flatMap ((", " : Text) ++ ·) = [] ∨ (ts.flatMap ((", " : Text) ++ ·)).head? = some ',' := by
  cases ts with
  | nil => exact .inl rfl
  | cons t ts => exact .inr rfl

/-- **The arguments of a relation are passed on.** -/
theorem passes_arguments (hne : target ≠ []) (hword : ∀ c ∈ target, isWord c = true)
    (hother : ∀ o ∈ r.otherProperty, Verbatim o)
    (hjoin : ∀ j ∈ r.joinTable, ∀ t ∈ j.strings, Verbatim t) :
    Passes (joinWith ", " (r.arguments target)) (r.passed target) := by
  have hargs : r.arguments target = ("targetEntity: " ++ target ++ "::class" : Text) ::
      (r.otherArgument ++ r.joinArgument ++ r.nullArgument) := by
    rw [Relation.arguments_eq, List.append_assoc, List.append_assoc, ← List.append_assoc
      r.otherArgument]
    rfl
  rw [hargs, joinWith_cons, Relation.passed, List.flatMap_append, List.flatMap_append]
  have hrest := ((passes_other hother).append (passes_join hjoin)
    (flatMap_separated _)).append (passes_null (r := r)) (flatMap_separated _)
  rw [← List.flatMap_append, ← List.flatMap_append] at hrest ⊢
  exact (passes_target hne hword).append hrest (flatMap_separated _)

/-! ## The rendered property -/

theorem namedArguments_attribute {rest : Text} (hne : target ≠ [])
    (hword : ∀ c ∈ target, isWord c = true) (hother : ∀ o ∈ r.otherProperty, Verbatim o)
    (hjoin : ∀ j ∈ r.joinTable, ∀ t ∈ j.strings, Verbatim t)
    (hrest : namedArguments (")]" ++ rest) = []) :
    namedArguments ("#[" ++ r.kind.attributeClass ++ "(" ++ joinWith ", " (r.arguments target) ++
      ")]" ++ rest) = r.passed target := by
  have hopen : ∀ X : Text, namedArguments ("#[" ++ (r.kind.attributeClass ++ ("(" ++ X))) =
      namedArguments X := by
    intro X
    cases r.kind <;> rfl
  have hend : IsBehindArgument (")]" ++ rest) := ⟨_, .inr rfl⟩
  simp only [List.append_assoc]
  rw [hopen, passes_arguments hne hword hother hjoin _ hend, hrest, List.append_nil]

/-! ### The lines around the attribute have no arguments -/

theorem namedArguments_elements (hne : target ≠ []) (hword : ∀ c ∈ target, isWord c = true)
    (u : Text) :
    namedArguments ("/** @var " ++ target ++ "[] */" ++ '\n' :: u) = namedArguments u := by
  have hlex : lex (.code []) ("/** @var " ++ target ++ "[] */" ++ '\n' :: u) =
      .mark '/' :: .mark '*' :: .mark '*' :: .mark '@' :: .word "var" ::
        lex (.code []) (target ++ '[' :: ("] */" ++ '\n' :: u)) := by
    rw [List.append_assoc, List.append_assoc]
    rfl
  rw [namedArguments, hlex, lex_word hne hword (by decide)]
  rfl

variable {property : Text}

theorem namedArguments_arrayDeclaration (hne : property ≠ [])
    (hword : ∀ c ∈ property, isWord c = true) :
    namedArguments (")]" ++ '\n' :: ("public array $" ++ property ++ ";")) = [] := by
  have hlex : lex (.code []) (")]" ++ '\n' :: ("public array $" ++ property ++ ";")) =
      .mark ')' :: .mark ']' :: .word "public" :: .word "array" :: .mark '$' ::
        lex (.code []) (property ++ ';' :: []) := by
    rw [List.append_assoc]
    rfl
  rw [namedArguments, hlex, lex_word hne hword (by decide)]
  rfl

theorem namedArguments_objectDeclaration (hne : target ≠ []) (hword : ∀ c ∈ target, isWord c = true)
    (hnamed : property ≠ []) (hplain : ∀ c ∈ property, isWord c = true) :
    namedArguments (")]" ++ '\n' :: ("public ?" ++ target ++ " $" ++ property ++ " = null;")) =
      [] := by
  have hlex : lex (.code []) (")]" ++ '\n' ::
      ("public ?" ++ target ++ " $" ++ property ++ " = null;")) =
        .mark ')' :: .mark ']' :: .word "public" :: .mark '?' ::
          lex (.code []) (target ++ ' ' :: ("$" ++ (property ++ " = null;"))) := by
    simp only [List.append_assoc]
    rfl
  have hmore : lex (.code []) (' ' :: ("$" ++ (property ++ " = null;"))) =
      .mark '$' :: lex (.code []) (property ++ ' ' :: "= null;") := rfl
  rw [namedArguments, hlex, lex_word hne hword (by decide), hmore,
    lex_word hnamed hplain (by decide)]
  rfl

/-- **The rendered property of a relation passes on the arguments that it shall**, whatever stands
for itself between single quotes. -/
theorem namedArguments_relationText (hproperty : Name property)
    (htarget : Capital target) (hother : ∀ o ∈ r.otherProperty, Verbatim o)
    (hjoin : ∀ j ∈ r.joinTable, ∀ t ∈ j.strings, Verbatim t) :
    namedArguments (Edit.relationText r property target) = r.passed target := by
  have hword : ∀ {t : Text}, Plain t → ∀ c ∈ t, isWord c = true :=
    fun h c hc => isWord_of_isAsciiWord (h c hc)
  have hne : target ≠ [] := by
    rintro rfl
    cases htarget.2
  have hnamed : property ≠ [] := by
    rintro rfl
    cases hproperty.start
  rw [relationText_eq, Render.relationProperty]
  cases r.kind.isCollection with
  | true =>
    rw [if_pos rfl, ofLines_cons (by simp), ofLines_cons (by simp), ofLines_singleton,
      namedArguments_elements hne (hword htarget.1),
      namedArguments_attribute hne (hword htarget.1) hother hjoin
        (namedArguments_arrayDeclaration hnamed (hword hproperty.plain))]
  | false =>
    rw [if_neg Bool.false_ne_true, ofLines_cons (by simp), ofLines_singleton,
      namedArguments_attribute hne (hword htarget.1) hother hjoin
        (namedArguments_objectDeclaration hne (hword htarget.1) hnamed (hword hproperty.plain))]

/-- A name with quotes in it passes on an argument more. -/
example :
    let table : JoinTable := ⟨"posts', schema: 'x", "post_id", "tag_id"⟩
    let tags : Relation := { kind := .manyToMany, target := "Tag", joinTable := some table }
    (namedArguments (Edit.relationText tags "tags" "Tag")).map Prod.fst =
      ["targetEntity", "joinTable", "name", "schema", "joinColumn", "inverseColumn"] := by
  decide

end

end EntityScaffold
