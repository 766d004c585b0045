import EntityScaffold.Refusal
import EntityScaffold.Schema.Fault
import EntityScaffold.Source.Member
import EntityScaffold.Storage.OsError
import EntityScaffold.Text.Utf8
import EntityScaffold.Value.Misreading

/-!
# Failures

Everything that can end an operation early, as causes with one wording each.
-/

set_option autoImplicit false

namespace EntityScaffold

open Text

/-- What is wrong with the text of an argument of the command line. -/
inductive ArgumentError where
  | field (text : Text)
  | fieldSuffix (text : Text)
  | relation (text : Text)
  deriving DecidableEq, Repr

/-- What an argument without words cannot be. -/
inductive WordlessUse where
  /-- A field or a relation, which is cut into parts. -/
  | parts
  /-- The name of a property, which is looked up. -/
  | name
  deriving DecidableEq, Repr

def WordlessUse.message : WordlessUse → Text
  | .parts => "'list' object has no attribute 'split'"
  | .name => "unhashable type: 'list'"

def ArgumentError.message : ArgumentError → Text
  | .field text => "Invalid --field '" ++ text ++ "', expected NAME:TYPE[:nullable]."
  | .fieldSuffix text => "Invalid --field '" ++ text ++ "': third part must be 'nullable'."
  | .relation text => "Invalid --relation '" ++ text ++ "', expected PROP:KIND:TARGET[:OTHER]."

/-- The formats of plan files. -/
inductive PlanFormat where
  | json
  | yaml
  deriving DecidableEq, Repr

/-- Why a plan file or its contents are not plans. -/
inductive PlanError where
  | missingFile (path : Text)
  | notAFile (path : Text)
  | malformed (format : PlanFormat) (path : Text)
  /-- A part of the file has no value. -/
  | content (e : ContentError)
  | notAMap (format : PlanFormat) (typeName : Text)
  | entitiesNotAList
  | noEntities
  | plans (r : Schema.Rejection)
  | config (r : Schema.Rejection)
  deriving DecidableEq, Repr

/-- The wording of a plan error; of a rejection only the first line of its report. -/
def PlanError.message : PlanError → Text
  | .missingFile path => "Plan file not found: " ++ path
  | .notAFile path => "Plan path is not a file: " ++ path
  | .malformed .json path => "Invalid JSON in " ++ path
  | .malformed .yaml path => "Invalid YAML in " ++ path
  | .content e => e.message
  | .notAMap .json typeName => "Expected a JSON object at top level, got " ++ typeName ++ "."
  | .notAMap .yaml typeName => "Expected a YAML mapping at top level, got " ++ typeName ++ "."
  | .entitiesNotAList => "'entities' must be a list of entity plans."
  | .noEntities =>
    "Cannot find entity plans in input. Expected top-level key: 'entities' or 'entity'."
  | .plans r => "Plan validation failed: " ++ r.headline
  | .config r => "Config validation failed: " ++ r.headline

/-- A member in a few words that tell it apart from others. -/
def Source.Member.describe : Source.Member → Text
  | .property p =>
    "PropertyNode(name=" ++ quoted p.name ++ ", text=" ++ quoted p.text ++ ", attributes=[" ++
      joinWith ", " (p.attributes.map quoted) ++ "])"
  | .method m =>
    "MethodNode(name=" ++ quoted m.name ++ ", head=" ++ quoted m.head ++ ", body=" ++
      m.body.elim ("None" : Text) quoted ++ ", tail=" ++ quoted m.tail ++ ")"
  | .verbatim text => "OpaqueNode(text=" ++ quoted text ++ ")"

/-- What ends an operation early. -/
inductive Failure where
  | refused (r : Refusal)
  | unparsable (e : Source.ParseError)
  /-- The lock file of an entity exists already. -/
  | locked (entity lock : Text)
  | os (e : Storage.OsError)
  | undecodable (e : DecodeError)
  | rejected (r : Schema.Rejection)
  | unhashable (typeName : Text)
  /-- An assignment to an attribute that is computed from the others. -/
  | readOnly (model name : Text)
  | limit (n : Int)
  | notAMember (m : Source.Member) (className : Text)
  | argument (e : ArgumentError)
  | wordless (use : WordlessUse)
  | plan (e : PlanError)
  deriving DecidableEq, Repr

/-- Two lower-case hexadecimal digits. -/
def byteText (b : UInt8) : Text := hexDigits 2 b.toNat

/-- The wording of bytes that are no UTF-8. -/
def Text.DecodeError.message (e : DecodeError) : Text :=
  "'utf-8' codec can't decode " ++
    (if e.stop = e.start + 1 then
      "byte 0x" ++ byteText e.first ++ " in position " ++ ofNat e.start
    else "bytes in position " ++ ofNat e.start ++ "-" ++ ofNat (e.stop - 1)) ++
    ": " ++ e.malformation.reason

/-- The wording of a failure. -/
def Failure.message : Failure → Text
  | .refused r => r.message
  | .unparsable e => e.message
  | .locked entity lock =>
    "'" ++ shortName entity ++ "' is locked by another run (" ++ lock ++ ")."
  | .os e => e.message
  | .undecodable e => e.message
  | .rejected r => r.headline
  | .unhashable typeName => "unhashable type: '" ++ typeName ++ "'"
  | .readOnly model name => "property '" ++ name ++ "' of '" ++ model ++ "' object has no setter"
  | .limit n => "n must be > 0: " ++ ofInt n
  | .notAMember m className => m.describe ++ " is not a member of " ++ className ++ "."
  | .argument e => e.message
  | .wordless use => use.message
  | .plan e => e.message

/-- The first key that faults could not even look up, if there is one; else the rejection. -/
def Schema.failureOf (model : Text) (faults : List Schema.Fault) : Failure :=
  match faults.findSome? fun f => match f.kind with
    | .unhashable typeName => some typeName
    | _ => none with
  | some typeName => .unhashable typeName
  | none => .rejected ⟨model, faults⟩

/-- The result of reading data for a model. -/
def Schema.settle {α : Type} (model : Text) : Schema.Checked α → Except Failure α
  | .ok a => .ok a
  | .error faults => .error (Schema.failureOf model faults)

end EntityScaffold
