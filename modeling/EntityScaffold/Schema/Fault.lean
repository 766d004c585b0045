import EntityScaffold.Value.Basic

/-!
# Faults of plan data

What is wrong with the data of a plan or a configuration, and where.  Reading collects all
faults, in the order of the fields, with unknown keys last.
-/

set_option autoImplicit false

namespace EntityScaffold.Schema

open Text

/-- A step into a value: the key of a map or the index of a list. -/
inductive Key where
  | name (t : Text)
  | number (n : Int)
  | index (i : Nat)
  deriving DecidableEq, Repr

/-- Whether an integer is one of 64 bits. -/
def isWord64 (n : Int) : Bool := -(Nat.pow 2 63 : Int) ≤ n && n < (Nat.pow 2 63 : Int)

/-- The step that the key of a map is.  Truth values are numbers here; a key that is neither a text
nor a number of 64 bits goes by its text within a value. -/
def Key.ofAtom : Atom → Key
  | .text t => .name t
  | .bool b => .number (if b then 1 else 0)
  | .int n => if isWord64 n then .number n else .name (ofInt n)
  | a => .name a.inner

/-- What is wrong with a value. -/
inductive FaultKind where
  | missing
  | unknownKey
  /-- A key that is no text. -/
  | invalidKey
  | notText
  /-- Bytes that encode no text. -/
  | undecodableText
  | emptyText
  | notAList
  | notABool
  | unclearBool
  | notAnInt
  | unclearInt
  | fractionalInt
  | infiniteInt
  | oversizedInt
  | tooSmall (least : Nat)
  | tooLarge (greatest : Nat)
  | notAKind
  | notAPath
  | notAMap (model : Text)
  /-- An assignment to an attribute that there is not. -/
  | noAttribute (name : Text)
  | refused (reason : Text)
  /-- A list, set or map where a name is looked up. -/
  | unhashable (typeName : Text)
  deriving DecidableEq, Repr

/-- The short name of a kind of fault. -/
def FaultKind.code : FaultKind → Text
  | .missing => "missing"
  | .unknownKey => "extra_forbidden"
  | .invalidKey => "invalid_key"
  | .notText => "string_type"
  | .undecodableText => "string_unicode"
  | .emptyText => "string_too_short"
  | .notAList => "list_type"
  | .notABool => "bool_type"
  | .unclearBool => "bool_parsing"
  | .notAnInt => "int_type"
  | .unclearInt => "int_parsing"
  | .fractionalInt => "int_from_float"
  | .infiniteInt => "finite_number"
  | .oversizedInt => "int_parsing_size"
  | .tooSmall _ => "greater_than_equal"
  | .tooLarge _ => "less_than_equal"
  | .notAKind => "enum"
  | .notAPath => "path_type"
  | .notAMap _ => "model_type"
  | .noAttribute _ => "no_such_attribute"
  | .refused _ => "value_error"
  | .unhashable _ => "type_error"

/-- The wording of a kind of fault. -/
def FaultKind.message : FaultKind → Text
  | .missing => "Field required"
  | .unknownKey => "Extra inputs are not permitted"
  | .invalidKey => "Keys should be strings"
  | .notText => "Input should be a valid string"
  | .undecodableText =>
    "Input should be a valid string, unable to parse raw data as a unicode string"
  | .emptyText => "String should have at least 1 character"
  | .notAList => "Input should be a valid list"
  | .notABool => "Input should be a valid boolean"
  | .unclearBool => "Input should be a valid boolean, unable to interpret input"
  | .notAnInt => "Input should be a valid integer"
  | .unclearInt => "Input should be a valid integer, unable to parse string as an integer"
  | .fractionalInt => "Input should be a valid integer, got a number with a fractional part"
  | .infiniteInt => "Input should be a finite number"
  | .oversizedInt => "Unable to parse input string as an integer, exceeded maximum size"
  | .tooSmall least => "Input should be greater than or equal to " ++ ofNat least
  | .tooLarge greatest => "Input should be less than or equal to " ++ ofNat greatest
  | .notAKind => "Input should be 'oneToOne', 'oneToMany', 'manyToOne' or 'manyToMany'"
  | .notAPath => "Input is not a valid path for <class 'pathlib.Path'>"
  | .notAMap model => "Input should be a valid dictionary or instance of " ++ model
  | .noAttribute name => "Object has no attribute '" ++ name ++ "'"
  | .refused reason => "Value error, " ++ reason
  | .unhashable typeName => "unhashable type: '" ++ typeName ++ "'"

/-- A fault at its place. -/
structure Fault where
  kind : FaultKind
  /-- The way from the top to the value. -/
  place : List Key := []
  deriving DecidableEq, Repr

/-- A fault seen from one step above. -/
def Fault.under (k : Key) (f : Fault) : Fault := { f with place := k :: f.place }

/-- Data that do not make up a model, with all their faults. -/
structure Rejection where
  model : Text
  faults : List Fault
  deriving DecidableEq, Repr

/-- The first line of a rejection's report. -/
def Rejection.headline (r : Rejection) : Text :=
  let count := r.faults.length
  ofNat count ++ (if count = 1 then " validation error for " else " validation errors for ") ++
    r.model

/-- The result of reading: the value, or all faults. -/
def Checked (α : Type) : Type := Except (List Fault) α

namespace Checked

variable {α β : Type}

def map (f : α → β) : Checked α → Checked β
  | .ok a => .ok (f a)
  | .error e => .error e

/-- Applies a checked function to a checked argument; the faults of both count. -/
def app : Checked (α → β) → Checked α → Checked β
  | .ok f, .ok a => .ok (f a)
  | .ok _, .error e => .error e
  | .error e, .ok _ => .error e
  | .error e, .error e' => .error (e ++ e')

instance : Applicative Checked where
  pure a := .ok a
  map := map
  seq f a := app f (a ())

/-- One fault, here. -/
def fail (kind : FaultKind) : Checked α := .error [{ kind := kind }]

/-- The faults as seen from one step above. -/
def under (k : Key) : Checked α → Checked α
  | .ok a => .ok a
  | .error e => .error (e.map (Fault.under k))

/-- Reads all elements, each under its index from `i` on. -/
def all {γ : Type} (check : γ → Checked α) (i : Nat) : List γ → Checked (List α)
  | [] => .ok []
  | v :: vs => app (map List.cons (under (.index i) (check v))) (all check (i + 1) vs)

end Checked

end EntityScaffold.Schema
