import EntityScaffold.Text.Case
import EntityScaffold.Value.Base64
import EntityScaffold.Value.Misreading
import EntityScaffold.Value.Numeral
import EntityScaffold.Value.Yaml.Tag

/-!
# What YAML scalars mean

The atom that a text is under a tag.  A text under a tag that it does not look like is read by
the same rules, as far as they go.

* `atomOf` — the atom of a text.
-/

set_option autoImplicit false

namespace EntityScaffold.Yaml

open Text

/-! ## Integers -/

/-- An integer to a base. -/
def integerTo (base : Nat) (t : Text) : Except ContentError Int :=
  (Numeral.integer base t).mapError fun
    | .malformed => .notAnInteger base t
    | .tooLong digits => .longInteger digits

/-- An integer without its sign: binary, hexadecimal or octal behind a zero, or decimal, perhaps
with parts to the base sixty. -/
def unsignedInteger (t : Text) : Except ContentError Int :=
  match t with
  | [] => .error .emptyNumber
  | ['0'] => .ok 0
  | '0' :: 'b' :: ds => integerTo 2 ds
  | '0' :: 'x' :: ds => integerTo 16 ds
  | '0' :: _ => integerTo 8 t
  | t => do
    if t.contains ':' then
      let parts ← (splitAt ':' t).mapM (integerTo 10)
      return parts.foldl (fun n part => 60 * n + part) 0
    else integerTo 10 t

/-- A text without its underscores. -/
def dropLines (t : Text) : Text := t.filter (· != '_')

/-- The integer of a text. -/
def integerOf (t : Text) : Except ContentError Int :=
  match dropLines t with
  | [] => .error .emptyNumber
  | c :: t =>
    if c = '-' then (unsignedInteger t).map (-·)
    else unsignedInteger (if c = '+' then t else c :: t)

/-! ## Floating-point numbers -/

/-- A number with a point. -/
def pointed (t : Text) : Except ContentError Binary64 :=
  match Numeral.decimal? t with
  | some x => .ok x
  | none => .error (.notANumber t)

/-- The sum of parts to the base sixty, the last one first; `place` is what the first of them
counts. -/
def sumOfSixties (place : Int) (sum : Binary64) : List Binary64 → Except ContentError Binary64
  | [] => .ok sum
  | part :: more =>
    match Binary64.ofInt? place with
    | some p => sumOfSixties (60 * place) (sum.add (part.mul p)) more
    | none => .error .tooManyParts

/-- A number without its sign. -/
def unsignedFloat (t : Text) : Except ContentError Binary64 := do
  if t = ".inf" then return .infinite false
  else if t = ".nan" then return .nan
  else if t.contains ':' then
    let parts ← (splitAt ':' t).mapM pointed
    sumOfSixties 1 (.finite false 0 (-1074)) parts.reverse
  else pointed t

/-- The floating-point number of a text. -/
def floatOf (t : Text) : Except ContentError Binary64 :=
  match lower (dropLines t) with
  | [] => .error .emptyNumber
  | c :: t =>
    if c = '-' then (unsignedFloat t).map (·.neg)
    else unsignedFloat (if c = '+' then t else c :: t)

/-! ## Other atoms -/

/-- The truth values by their words. -/
def truthValues : List (Text × Bool) :=
  [("yes", true), ("no", false), ("true", true), ("false", false), ("on", true), ("off", false)]

/-- The truth value of a text. -/
def boolOf (t : Text) : Except ContentError Bool :=
  match truthValues.lookup (lower t) with
  | some b => .ok b
  | none => .error (.notATruthValue (lower t))

/-- The day or moment of a text. -/
def momentOf (t : Text) : Except ContentError Atom :=
  match MomentText.read (Tag.dropLineFeed t) with
  | some m => m.atom.mapError .calendar
  | none => .error .notAMoment

/-- The atom of a text under the tag of an atom. -/
def atomOf (tag : Tag) (t : Text) : Except Misreading Atom :=
  match tag with
  | .null => .ok .null
  | .bool => ((boolOf t).map .bool).mapError .content
  | .int => ((integerOf t).map .int).mapError .content
  | .float => ((floatOf t).map .float).mapError .content
  | .text => .ok (.text t)
  | .moment => (momentOf t).mapError .content
  | .bytes =>
    match Base64.decode? t with
    | some bs => .ok (.bytes bs)
    | none => .error .malformed
  | .list | .map | .set | .pairs | .merge | .value | .unknown => .error .malformed

end EntityScaffold.Yaml
