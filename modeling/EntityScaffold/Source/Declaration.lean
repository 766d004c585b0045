import EntityScaffold.Source.Lexeme

/-!
# Declarations

Recognisers for what is declared, run on masked text from which attributes have been blanked:
methods, properties, constants with trait uses and enum cases, class headers, and assignments to
properties.  None of them looks further than the name, save the class header, which reaches to
the opening brace.
-/

set_option autoImplicit false

namespace EntityScaffold.Source

open Text

/-- At least one blank, and the rest behind all of them. -/
def blanks? : Text → Option Text
  | [] => none
  | c :: t => if isBlank c then some (t.dropWhile isBlank) else none

def skipBlanks (t : Text) : Text := t.dropWhile isBlank

/-- One of the keywords with the blanks behind it. -/
def keyword? (keywords : List Text) (t : Text) : Option Text :=
  keywords.findSome? fun w => (after? w t).bind blanks?

/-- As `keyword?`; the keyword may carry a restriction of its setter. -/
def visibility? (keywords : List Text) (t : Text) : Option Text :=
  keywords.findSome? fun w => (after? w t).bind fun rest =>
    blanks? ((after? "(set)" rest).getD rest)

/-- Takes steps as long as there is one; `fuel` bounds their number. -/
def stepsWith (step : Text → Option Text) : Nat → Text → Text
  | 0, t => t
  | fuel + 1, t => match step t with
    | some rest => stepsWith step fuel rest
    | none => t

/-- Takes steps, each of which consumes a character, as long as there is one. -/
def steps (step : Text → Option Text) (t : Text) : Text := stepsWith step t.length t

def methodModifiers : List Text :=
  ["public", "protected", "private", "static", "abstract", "final"]

def propertyModifiers : List Text :=
  ["public", "protected", "private", "var", "static", "readonly"]

def constantModifiers : List Text := ["public", "protected", "private", "final"]

def classModifiers : List Text := ["final", "abstract", "readonly"]

/-- The name of the method whose declaration the text begins with. -/
def methodName? (t : Text) : Option Text := do
  let t := steps (keyword? methodModifiers) (skipBlanks t)
  let t ← (← after? "function" t) |> blanks?
  let t := skipBlanks ((after? "&" t).getD t)
  let (name, t) ← name? t
  let _ ← after? "(" (skipBlanks t)
  some name

/-- The name of the variable that the text begins with. -/
def variableName? (t : Text) : Option Text := do
  let (name, _) ← (← after? "$" t) |> name?
  some name

/-- The type in front of a property's variable, in one piece, and the blanks behind it. -/
def typeWord? (t : Text) : Option Text :=
  let ends := fun c => isBlank c || c == '$' || c == '=' || c == ';'
  if t.head?.all ends then none else blanks? (t.dropWhile (!ends ·))

/-- The name of the property whose declaration the text begins with. -/
def propertyName? (t : Text) : Option Text := do
  let t ← visibility? propertyModifiers (skipBlanks t)
  let t := steps (visibility? propertyModifiers) t
  variableName? ((typeWord? t).getD t)

/-- Whether the text begins with a constant, a trait use or an enum case. -/
def isConstantLike (t : Text) : Bool :=
  let t := steps (keyword? constantModifiers) (skipBlanks t)
  [("const" : Text), "use", "case"].any fun w =>
    (after? w t).any fun rest => !rest.head?.any isWord

/-- A class header at the beginning of the text: the name, and the number of characters up to
and with the opening brace. -/
def classHeader? (t : Text) : Option (Text × Nat) := do
  let u := steps (keyword? classModifiers) t
  let u ← (← after? "class" u) |> blanks?
  let (name, u) ← name? u
  let u ← after? "\x7b" (u.dropWhile fun c => c != '\x7b' && c != ';')
  some (name, t.length - u.length)

/-- Whether a class header may begin behind the character. -/
def endsBeforeClass (prev : Char) : Bool :=
  !(isWord prev || prev == '$' || prev == ':' || prev == '>' || prev == '\\')

/-- A class header within a text. -/
structure ClassHeader where
  className : Text
  /-- Where the header begins. -/
  start : Nat
  /-- Where the opening brace stands. -/
  brace : Nat
  deriving DecidableEq, Repr

/-- The class headers from position `pos` on; `skip` characters belong to the last one. -/
def classHeadersFrom (prev : Option Char) (pos skip : Nat) : Text → List ClassHeader
  | [] => []
  | c :: t =>
    match skip with
    | skip + 1 => classHeadersFrom (some c) (pos + 1) skip t
    | 0 =>
      match if prev.all endsBeforeClass then classHeader? (c :: t) else none with
      | some (name, size) =>
        ⟨name, pos, pos + size - 1⟩ :: classHeadersFrom (some c) (pos + 1) (size - 1) t
      | none => classHeadersFrom (some c) (pos + 1) 0 t

/-- The class headers of a masked text. -/
def classHeaders (m : Text) : List ClassHeader := classHeadersFrom none 0 0 m

/-- An assignment to a property of the object at the beginning of the text: the property's name
and the number of characters. -/
def assignment? (t : Text) : Option (Text × Nat) := do
  let u ← after? "$this" t
  let u ← after? "->" (skipBlanks u)
  let (name, u) ← name? (skipBlanks u)
  let u ← after? "=" (skipBlanks u)
  if u.head?.any fun c => c == '=' || c == '>' then none else some (name, t.length - u.length)

/-- The names of the properties assigned to; `skip` characters belong to the last assignment. -/
def assignmentsFrom (skip : Nat) : Text → List Text
  | [] => []
  | c :: t =>
    match skip with
    | skip + 1 => assignmentsFrom skip t
    | 0 => match assignment? (c :: t) with
      | some (name, size) => name :: assignmentsFrom (size - 1) t
      | none => assignmentsFrom 0 t

/-- The names of the properties that masked code assigns to, in order. -/
def assignments (m : Text) : List Text := assignmentsFrom 0 m

/-- The qualified name at the beginning of a text. -/
def qualifiedName? : Text → Option (Text × Text)
  | [] => none
  | c :: t =>
    let inside := fun d => isWord d || d == '\\'
    if isNameStart c then some (c :: t.takeWhile inside, t.dropWhile inside) else none

/-- The target of a relation attribute at the beginning of the text. -/
def targetEntity? (t : Text) : Option Text := do
  let u := skipBlanks (← after? "targetEntity:" t)
  let (name, u) ← qualifiedName? ((after? "\\" u).getD u)
  let _ ← after? "::class" u
  some name

/-- The first target of a relation attribute in a text. -/
def firstTargetEntity? : Text → Option Text
  | [] => none
  | c :: t => (targetEntity? (c :: t)).or (firstTargetEntity? t)

/-- Whether the text begins with the declaration of `name` as an array. -/
def arrayOf (name t : Text) : Bool :=
  let rest? : Option Text := do after? ('$' :: name) (← blanks? (← after? "array" t))
  rest?.any fun rest => !rest.head?.any isWord

/-- Whether a text declares the property `name` as an array; `prev` is the preceding
character. -/
def declaresArray (name : Text) (prev : Option Char) : Text → Bool
  | [] => false
  | c :: t => (!prev.any isWord && arrayOf name (c :: t)) || declaresArray name (some c) t

end EntityScaffold.Source
