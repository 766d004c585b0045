import EntityScaffold.Schema.Fault
import EntityScaffold.Schema.IntegerText
import EntityScaffold.FieldType
import EntityScaffold.RelationKind
import EntityScaffold.Config

/-!
# Checks of single values

Readers for texts, truth values, integers, paths and the like.  Truth values and integers may be
given as texts, and texts as the bytes that encode them.
-/

set_option autoImplicit false

namespace EntityScaffold.Schema

open Text

/-- What a value is as a text.  Bytes are the text that they encode. -/
inductive Textual where
  | text (t : Text)
  | undecodable
  | other

def textual : Value → Textual
  | .text t => .text t
  | .bytes bs =>
    match decode bs with
    | .ok t => .text t
    | .error _ => .undecodable
  | _ => .other

def checkText (v : Value) : Checked Text :=
  match textual v with
  | .text t => pure t
  | .undecodable => .fail .undecodableText
  | .other => .fail .notText

def checkFilledText (v : Value) : Checked Text :=
  match textual v with
  | .text [] => .fail .emptyText
  | .text t => pure t
  | .undecodable => .fail .undecodableText
  | .other => .fail .notText

/-- A value, or nothing. -/
def checkOptional {α : Type} (check : Value → Checked α) : Value → Checked (Option α)
  | .null => pure none
  | v => some <$> check v

def falseWords : List Text := ["0", "off", "f", "false", "n", "no"]

def trueWords : List Text := ["1", "on", "t", "true", "y", "yes"]

/-- The truth value of an integer. -/
def boolOfInt (n : Int) : Checked Bool :=
  if n = 0 then pure false else if n = 1 then pure true
  else .fail (if isWord64 n then .unclearBool else .notABool)

/-- The truth value of a text. -/
def boolOfText (t : Text) : Checked Bool :=
  let word := t.map asciiLower
  if falseWords.contains word then pure false
  else if trueWords.contains word then pure true
  else .fail .unclearBool

def checkBool (v : Value) : Checked Bool :=
  match textual v, v with
  | .text t, _ => boolOfText t
  | .undecodable, _ => .fail .unclearBool
  | .other, .bool b => pure b
  | .other, .int n => boolOfInt n
  | .other, .float x =>
    match x.toInt? with
    | some n => if n = -(Nat.pow 2 63 : Int) then .fail .notABool else boolOfInt n
    | none => .fail .notABool
  | .other, _ => .fail .notABool

/-- The integer of a text. -/
def intOfText (t : Text) : Checked Int :=
  match IntegerText.read t with
  | .ok n => pure n
  | .error .malformed => .fail .unclearInt
  | .error .tooLong => .fail .oversizedInt

/-- The integer that a number is, if it is finite and not too large. -/
def intOfFloat (x : Binary64) : Checked Int :=
  match x, x.toInt? with
  | _, some n =>
    if isWord64 n && n ≠ -(Nat.pow 2 63 : Int) then pure n else .fail .oversizedInt
  | .finite .., none => .fail .fractionalInt
  | _, none => .fail .infiniteInt

def checkInt (v : Value) : Checked Int :=
  match textual v, v with
  | .text t, _ => intOfText t
  | .undecodable, _ => .fail .unclearInt
  | .other, .int n => pure n
  | .other, .bool b => pure (if b then 1 else 0)
  | .other, .float x => intOfFloat x
  | .other, _ => .fail .notAnInt

/-- An integer between two bounds. -/
def checkBetween (least greatest : Nat) (v : Value) : Checked Nat :=
  match checkInt v with
  | .error e => .error e
  | .ok n =>
    if n < least then .fail (.tooSmall least)
    else if greatest < n then .fail (.tooLarge greatest)
    else pure n.toNat

def checkPath : Value → Checked Path
  | .text t => pure (.ofText t)
  | _ => .fail .notAPath

/-- A kind of relation by its exact keyword. -/
def checkExactKind (v : Value) : Checked RelationKind :=
  match textual v with
  | .text t =>
    match RelationKind.ofExactKeyword? t with
    | some k => pure k
    | none => .fail .notAKind
  | _ => .fail .notAKind

/-- A kind of relation by its keyword, which may be spelled freely as a text. -/
def checkKind : Value → Checked RelationKind
  | .text t =>
    match RelationKind.ofKeyword? t with
    | some k => pure k
    | none => .fail .notAKind
  | v => checkExactKind v

/-- A field type by its name.  Lists, sets and maps are no names at all. -/
def checkFieldType : Value → Checked FieldType
  | .text t =>
    match FieldType.ofName? t with
    | some type => pure type
    | none => .fail (.refused ("Unknown field type '" ++ t ++ "'."))
  | .atom a => .fail (.refused ("Unknown field type '" ++ a.message ++ "'."))
  | v => .fail (.unhashable v.typeName)

/-- A namespace that is more than white space and backslashes. -/
def checkNamespace (v : Value) : Checked Text :=
  match checkText v with
  | .error e => .error e
  | .ok t =>
    if Config.cleanNamespace t = [] then .fail (.refused "Namespace must not be empty.")
    else pure (Config.cleanNamespace t)

/-- A list of such elements; a set counts as the list of its members. -/
def checkList {α : Type} (check : Value → Checked α) : Value → Checked (List α)
  | .list vs => Checked.all check 0 vs
  | .set members => Checked.all check 0 (members.map .atom)
  | _ => .fail .notAList

end EntityScaffold.Schema
