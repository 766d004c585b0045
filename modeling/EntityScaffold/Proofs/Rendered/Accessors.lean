import EntityScaffold.Editing
import EntityScaffold.Proofs.Rendered.Names
import EntityScaffold.Proofs.Source.Generated

/-!
# Rendered accessors are read back

* `nativeTypes`, `IsFieldType` — the types that fields are declared with.
* `Accessor` — the five forms of accessors of fields and relations.
* `Accessor.tidy`, `Accessor.methodOf_text` — each is read as the method it was rendered for.
-/

set_option autoImplicit false

namespace EntityScaffold

open Text Source

/-! ## Names and types -/

theorem isAsciiWord_asciiUpper {c : Char} (h : isAsciiWord c = true) :
    isAsciiWord (asciiUpper c) = true :=
  forall_isAsciiWord (p := fun c => isAsciiWord (asciiUpper c)) (by decide) h

theorem isAsciiWord_asciiLower {c : Char} (h : isAsciiWord c = true) :
    isAsciiWord (asciiLower c) = true :=
  forall_isAsciiWord (p := fun c => isAsciiWord (asciiLower c)) (by decide) h

/-- The lower case of a text that begins with an ASCII character. -/
theorem head?_lower_cons {c : Char} (hc : c.toNat < 0x80) (t : Text) :
    (lower (c :: t)).head? = some (asciiLower c) := by
  have hsigma : c ≠ 'Σ' := by
    rintro rfl
    revert hc
    decide
  rw [lower, lowerFrom, if_neg hsigma, lowerChar_of_ascii hc]
  rfl

theorem plain_upperFirst {t : Text} (h : Plain t) : Plain (upperFirst t) := by
  cases t with
  | nil => exact h
  | cons c t =>
    have hc := h c (by simp)
    rw [upperFirst, upperChar_of_ascii (toNat_lt_of_isAsciiWord hc)]
    intro d hd
    rcases List.mem_cons.mp hd with rfl | hd
    · exact isAsciiWord_asciiUpper hc
    · exact h d (List.mem_cons_of_mem c hd)

theorem takeWhile_of_plain {t : Text} (h : Plain t) (rest : Text) :
    (t.reverse ++ rest).takeWhile (· != '\\') = t.reverse ++ rest.takeWhile (· != '\\') := by
  refine List.takeWhile_append_of_pos fun c hc => ?_
  have : c ≠ '\\' := ne_of_isAsciiWord (h c (List.mem_reverse.mp hc)) rfl
  simpa using this

theorem shortName_of_plain {t : Text} (h : Plain t) : shortName t = t := by
  have hall := takeWhile_of_plain h []
  rw [List.append_nil, List.takeWhile_nil, List.append_nil] at hall
  rw [shortName, hall, List.reverse_reverse]

theorem shortName_qualified {t : Text} (h : Plain t) (ns : Text) :
    shortName (ns ++ ['\\'] ++ t) = t := by
  have hstop := takeWhile_of_plain h ('\\' :: ns.reverse)
  rw [List.takeWhile_cons_of_neg (by decide), List.append_nil] at hstop
  rw [shortName]
  simp only [List.reverse_append, List.reverse_cons, List.reverse_nil, List.nil_append,
    List.singleton_append]
  rw [hstop, List.reverse_reverse]

theorem isTypeChar_of_isAsciiWord {c : Char} (h : isAsciiWord c = true) : isTypeChar c = true := by
  simp [isTypeChar, h]

theorem Source.Capital.isType {t : Text} (h : Capital t) : IsType t where
  chars c hc := isTypeChar_of_isAsciiWord (h.1 c hc)
  content := by
    rintro rfl
    cases h.2
  words := Piece.headRun_capital h (by decide)

theorem Source.Capital.isType_reference {t : Text} (h : Capital t) : IsType ('?' :: t) where
  chars c hc := by
    rcases List.mem_cons.mp hc with rfl | hc
    · decide
    · exact h.isType.chars c hc
  content := by simp
  words := by
    have hmark : headStep headWords '?' = some headWords := by decide
    rw [headRun_cons, hmark]
    exact h.isType.words

theorem reference_free (t : Text) :
    '?' :: t ∉ ("function" : Text) :: (methodModifiers ++ propertyModifiers) := by
  have hfirst : ∀ w ∈ ("function" : Text) :: (methodModifiers ++ propertyModifiers),
      w.head? ≠ some '?' := by decide
  exact fun hm => hfirst _ hm rfl

/-- The native types of scalar fields, and the one for an unknown database type. -/
def nativeTypes : List Text :=
  ["int", "float", "bool", "\\DateTimeImmutable", "array", "string", FieldType.phpTypeOfUnknown]

theorem phpType_mem (t : FieldType) : t.phpType ∈ nativeTypes := by cases t <;> decide

theorem plain_fieldTypeName (t : FieldType) : Plain t.name := by cases t <;> decide

theorem isType_native {t : Text} (h : t ∈ nativeTypes) (nullable : Bool) :
    IsType (Render.nullableType t nullable) := by
  have hchars : ∀ t ∈ nativeTypes, ∀ b,
      (∀ c ∈ Render.nullableType t b, isTypeChar c = true) ∧ Render.nullableType t b ≠ [] ∧
        headRun headWords (Render.nullableType t b) = some [] := by decide
  obtain ⟨h₁, h₂, h₃⟩ := hchars t h nullable
  exact ⟨h₁, h₂, h₃⟩

theorem native_free {t : Text} (h : t ∈ nativeTypes) (nullable : Bool) :
    Render.nullableType t nullable ∉
      ("function" : Text) :: (methodModifiers ++ propertyModifiers) := by
  have hall : ∀ t ∈ nativeTypes, ∀ b, Render.nullableType t b ∉
      ("function" : Text) :: (methodModifiers ++ propertyModifiers) := by decide
  exact hall t h nullable

/-- A native type that a field can be declared with, whether it admits null or not. -/
def IsFieldType (t : Text) : Prop := ∀ nullable, IsType (Render.nullableType t nullable) ∧
  Render.nullableType t nullable ∉ ("function" : Text) :: (methodModifiers ++ propertyModifiers)

theorem isFieldType_native {t : Text} (h : t ∈ nativeTypes) : IsFieldType t := fun nullable =>
  ⟨isType_native h nullable, native_free h nullable⟩

theorem isType_array : IsType "array" :=
  isType_native (t := "array") (by decide) false

/-! ## Accessors -/

/-- A generated accessor of a property. -/
inductive Accessor where
  | getter (property returns : Text)
  | setter (property param : Text)
  /-- Empties a reference. -/
  | clear (property : Text)
  /-- Adds a target to a collection. -/
  | adder (property target : Text)
  /-- Removes a target from a collection. -/
  | remover (property target : Text)
  deriving DecidableEq, Repr

namespace Accessor

def name : Accessor → Text
  | .getter property _ => Render.getterName property
  | .setter property _ => Render.setterName property
  | .clear property => Render.clearName property
  | .adder _ target => Render.addName target
  | .remover _ target => Render.removeName target

def params : Accessor → Text
  | .getter _ _ | .clear _ => []
  | .setter property param => param ++ " $" ++ property
  | .adder _ target | .remover _ target => target ++ " $item"

def returns : Accessor → Text
  | .getter _ returns => returns
  | _ => "self"

def statements : Accessor → List Text
  | .getter property _ => ["return $this->" ++ property ++ ";"]
  | .setter property _ => ["$this->" ++ property ++ " = $" ++ property ++ ";", "return $this;"]
  | .clear property => ["$this->" ++ property ++ " = null;", "return $this;"]
  | .adder property _ => ["$this->" ++ property ++ "[] = $item;", "return $this;"]
  | .remover property _ =>
    ["$this->" ++ property ++ " = array_values(array_filter($this->" ++ property ++
      ", fn($i) => $i !== $item));", "return $this;"]

/-- The first line of the method. -/
def head (a : Accessor) : Text :=
  "public function " ++ a.name ++ "(" ++ a.params ++ "): " ++ a.returns

/-- The method as it is rendered. -/
def text (i : Text) (a : Accessor) : Text :=
  Render.method i a.name a.params a.returns a.statements

/-- The method as it is read. -/
def method (i : Text) (a : Accessor) : Method :=
  methodOf a.name a.head (a.statements.map (i ++ ·))

/-- Whether the names are plain. -/
def IsPlain : Accessor → Prop
  | .getter property returns => Plain property ∧ IsType returns
  | .setter property param => Plain property ∧ IsType param
  | .clear property => Plain property
  | .adder property target | .remover property target => Plain property ∧ Capital target

def headPieces : Accessor → List Piece
  | .getter property returns =>
    [.code "public function ", .code "get", .name (upperFirst property),
      .code "(", .code "): ", .type returns]
  | .setter property param =>
    [.code "public function ", .code "set", .name (upperFirst property), .code "(", .type param,
      .code " $", .name property, .code "): ", .code "self"]
  | .clear property =>
    [.code "public function ", .code "remove", .name (upperFirst property),
      .code "(", .code "): ", .code "self"]
  | .adder _ target =>
    [.code "public function ", .code "add", .name target, .code "(", .type target, .code " $item",
      .code "): ", .code "self"]
  | .remover _ target =>
    [.code "public function ", .code "remove", .name target, .code "(", .type target, .code " $item",
      .code "): ", .code "self"]

def statementPieces : Accessor → List (List Piece)
  | .getter property _ => [[.code "return $this->", .name property, .code ";"]]
  | .setter property _ =>
    [[.code "$this->", .name property, .code " = $", .name property, .code ";"],
      [.code "return $this;"]]
  | .clear property => [[.code "$this->", .name property, .code " = null;"], [.code "return $this;"]]
  | .adder property _ =>
    [[.code "$this->", .name property, .code "[] = $item;"], [.code "return $this;"]]
  | .remover property _ =>
    [[.code "$this->", .name property, .code " = array_values(array_filter($this->",
      .name property, .code ", fn($i) => $i !== $item));"], [.code "return $this;"]]

theorem text_headPieces (a : Accessor) : (Row.ofPieces a.headPieces).text = a.head := by
  -- the pieces are those of the line; what is left is where the brackets of the sum stand
  have hnone : ∀ f v x o c r : Text, f ++ (v ++ (x ++ (o ++ (c ++ (r ++ []))))) =
      f ++ (v ++ x) ++ o ++ [] ++ c ++ r := by
    intros
    simp only [List.append_assoc, List.append_nil]
  have htarget : ∀ f v x o t i c r : Text, f ++ (v ++ (x ++ (o ++ (t ++ (i ++ (c ++ (r ++ []))))))) =
      f ++ (v ++ x) ++ o ++ (t ++ i) ++ c ++ r := by
    intros
    simp only [List.append_assoc, List.append_nil]
  have hparam : ∀ f v x o t d y c r : Text,
      f ++ (v ++ (x ++ (o ++ (t ++ (d ++ (y ++ (c ++ (r ++ [])))))))) =
        f ++ (v ++ x) ++ o ++ (t ++ d ++ y) ++ c ++ r := by
    intros
    simp only [List.append_assoc, List.append_nil]
  cases a with
  | getter property returns => exact hnone _ _ _ _ _ _
  | setter property param => exact hparam _ _ _ _ _ _ _ _ _
  | clear property => exact hnone _ _ _ _ _ _
  | adder property target => exact htarget _ _ _ _ _ _ _ _
  | remover property target => exact htarget _ _ _ _ _ _ _ _

theorem text_statementPieces (a : Accessor) :
    a.statementPieces.map (fun ps => (Row.ofPieces ps).text) = a.statements := by
  cases a <;> simp [Row.ofPieces, statementPieces, Piece.text, statements]

theorem fits_headPieces (a : Accessor) :
    Piece.fits a.headPieces = true ∧ a.headPieces.all Piece.isBare = true ∧
      a.headPieces.all (·.avoids ';') = true := by
  cases a <;> exact ⟨rfl, rfl, rfl⟩

theorem fits_statementPieces (a : Accessor) :
    ∀ ps ∈ a.statementPieces, Piece.fits ps = true ∧ ps.all Piece.isBare = true := by
  cases a <;> simp only [statementPieces, List.mem_cons, List.not_mem_nil, or_false] <;>
    rintro ps (rfl | rfl) <;> exact ⟨rfl, rfl⟩

theorem plain_headPieces {a : Accessor} (ha : a.IsPlain) : ∀ p ∈ a.headPieces, p.IsPlain := by
  cases a with
  | getter property returns =>
    intro p hp
    simp only [headPieces, List.mem_cons, List.not_mem_nil, or_false] at hp
    rcases hp with rfl | rfl | rfl | rfl | rfl | rfl
    exacts [trivial, trivial, plain_upperFirst ha.1, trivial, trivial, ha.2]
  | setter property param =>
    intro p hp
    simp only [headPieces, List.mem_cons, List.not_mem_nil, or_false] at hp
    rcases hp with rfl | rfl | rfl | rfl | rfl | rfl | rfl | rfl | rfl
    exacts [trivial, trivial, plain_upperFirst ha.1, trivial, ha.2, trivial, ha.1, trivial, trivial]
  | clear property =>
    intro p hp
    simp only [headPieces, List.mem_cons, List.not_mem_nil, or_false] at hp
    rcases hp with rfl | rfl | rfl | rfl | rfl | rfl
    exacts [trivial, trivial, plain_upperFirst ha, trivial, trivial, trivial]
  | adder property target =>
    intro p hp
    simp only [headPieces, List.mem_cons, List.not_mem_nil, or_false] at hp
    rcases hp with rfl | rfl | rfl | rfl | rfl | rfl | rfl | rfl
    exacts [trivial, trivial, ha.2.1, trivial, ha.2.isType, trivial, trivial, trivial]
  | remover property target =>
    intro p hp
    simp only [headPieces, List.mem_cons, List.not_mem_nil, or_false] at hp
    rcases hp with rfl | rfl | rfl | rfl | rfl | rfl | rfl | rfl
    exacts [trivial, trivial, ha.2.1, trivial, ha.2.isType, trivial, trivial, trivial]

/-- The property that an accessor belongs to. -/
def property : Accessor → Text
  | .getter property _ | .setter property _ | .clear property | .adder property _
  | .remover property _ => property

theorem IsPlain.property {a : Accessor} (ha : a.IsPlain) : Plain a.property := by
  cases a with
  | clear property => exact ha
  | getter _ _ | setter _ _ | adder _ _ | remover _ _ => exact ha.1

/-- The pieces of statements are fixed code and the name of the property. -/
theorem plain_statementPieces {a : Accessor} (ha : a.IsPlain) :
    ∀ ps ∈ a.statementPieces, ∀ p ∈ ps, p.IsPlain := by
  have hform : ∀ ps ∈ a.statementPieces, ∀ p ∈ ps, (∃ t, p = .code t) ∨ p = .name a.property := by
    cases a <;> simp [statementPieces, property]
  intro ps hps p hp
  rcases hform ps hps p hp with ⟨t, rfl⟩ | rfl
  · trivial
  · exact ha.property

theorem plain_name {a : Accessor} (ha : a.IsPlain) : Name a.name := by
  have hget : Plain "get" := by decide
  have hset : Plain "set" := by decide
  have hremove : Plain "remove" := by decide
  have hadd : Plain "add" := by decide
  cases a with
  | getter property returns => exact ⟨rfl, hget.append (plain_upperFirst ha.1)⟩
  | setter property param => exact ⟨rfl, hset.append (plain_upperFirst ha.1)⟩
  | clear property => exact ⟨rfl, hremove.append (plain_upperFirst ha)⟩
  | adder property target => exact ⟨rfl, hadd.append ha.2.1⟩
  | remover property target => exact ⟨rfl, hremove.append ha.2.1⟩

/-- The letter that the name of an accessor begins with. -/
def initial : Accessor → Char
  | .getter _ _ => 'g'
  | .setter _ _ => 's'
  | .clear _ | .remover _ _ => 'r'
  | .adder _ _ => 'a'

theorem head?_lower_name (a : Accessor) : (lower a.name).head? = some a.initial := by
  cases a <;> exact head?_lower_cons (by decide) _

/-- No accessor goes by the name of constructors. -/
theorem lower_name_ne (a : Accessor) : lower a.name ≠ constructorName := by
  intro heq
  have hfirst := a.head?_lower_name
  rw [heq] at hfirst
  have hinitial : a.initial ≠ '_' := by cases a <;> simp [initial]
  exact hinitial (Option.some.inj hfirst).symm

/-- The rows of an accessor. -/
def rows (i : Text) (a : Accessor) : List Row :=
  methodRows a.head (a.statements.map (i ++ ·))

/-- **An accessor is tidy.** -/
theorem tidy {i : Text} (hi : IsIndent i) {a : Accessor} (ha : a.IsPlain) :
    Tidy (.method (a.method i)) (a.rows i) := by
  obtain ⟨hfits, hbare, havoids⟩ := a.fits_headPieces
  have hplain := plain_headPieces ha
  have hhead := bareLine_ofPieces hfits hbare hplain
  have hsemi := Piece.notMem_shownAll (by decide) hplain havoids
  rw [Piece.shown_of_isBare hbare, a.text_headPieces] at hsemi
  rw [a.text_headPieces] at hhead
  have hstart : a.head = "public " ++ ("function " ++ (a.name ++ '(' ::
      (a.params ++ "): " ++ a.returns))) := by
    have hassoc : ∀ p f n o m c r : Text, p ++ f ++ n ++ o ++ m ++ c ++ r =
        p ++ (f ++ (n ++ (o ++ (m ++ c ++ r)))) := by
      intros
      simp only [List.append_assoc]
    exact hassoc "public " "function " a.name "(" a.params "): " a.returns
  refine tidy_methodOf (plain_name ha) hhead hsemi hstart fun l hl => ?_
  obtain ⟨m, hm, rfl⟩ := List.mem_map.mp hl
  rw [← a.text_statementPieces] at hm
  obtain ⟨ps, hps, rfl⟩ := List.mem_map.mp hm
  obtain ⟨hfits, hbare⟩ := a.fits_statementPieces ps hps
  exact (bareLine_ofPieces hfits hbare (plain_statementPieces ha ps hps)).indented hi

theorem names_method (i : Text) (as : List Accessor) :
    (as.map (·.method i)).map Method.name = as.map name :=
  List.map_map

theorem text_eq (i : Text) (a : Accessor) : (a.method i).text = a.text i :=
  methodOf_text a.name a.head (a.statements.map (i ++ ·))

/-- **A rendered accessor is read back.** -/
theorem methodOf_text {i : Text} (hi : IsIndent i) {a : Accessor} (ha : a.IsPlain) :
    Edit.methodOf (a.text i) = .ok (a.method i) := by
  have hread : parseMember (a.text i) = .ok (.method (a.method i)) := by
    rw [← a.text_eq i]
    exact parseMember_of_tidy (tidy hi ha)
  rw [Edit.methodOf, hread]

theorem mapM_methodOf {i : Text} (hi : IsIndent i) {as : List Accessor}
    (has : ∀ a ∈ as, a.IsPlain) :
    (as.map (text i)).mapM Edit.methodOf = .ok (as.map (method i)) := by
  induction as with
  | nil => rfl
  | cons a as ih =>
    have hrest := ih fun b hb => has b (List.mem_cons_of_mem a hb)
    rw [List.map_cons, List.mapM_cons, methodOf_text hi (has a (by simp)), hrest]
    rfl

end Accessor

/-- The accessors of a field with that native type. -/
def fieldAccessors (name type : Text) : List Accessor := [.getter name type, .setter name type]

/-- The accessors of a reference to a target. -/
def referenceAccessors (property target : Text) : List Accessor :=
  [.getter property ('?' :: target), .setter property ('?' :: target), .clear property]

/-- The accessors of a collection of targets. -/
def collectionAccessors (property target : Text) : List Accessor :=
  [.adder property target, .remover property target, .getter property "array"]

theorem render_fieldAccessors (i name php : Text) (nullable : Bool) :
    Render.fieldAccessors i name php nullable =
      (fieldAccessors name (Render.nullableType php nullable)).map (Accessor.text i) := rfl

theorem render_referenceAccessors (i property target : Text) :
    Render.referenceAccessors i property target =
      (referenceAccessors property target).map (Accessor.text i) := rfl

theorem render_collectionAccessors (i property target : Text) :
    Render.collectionAccessors i property target =
      (collectionAccessors property target).map (Accessor.text i) := rfl

end EntityScaffold
