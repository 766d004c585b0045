import EntityScaffold.Value.Yaml.MomentText

/-!
# Tags of YAML

What a node is to be taken for.  A tag may be written out; a plain scalar without one is taken for
what it looks like.

* `Tag.ofName` — the tag of a full name.
* `Tag.ofPlain` — what a text looks like.
-/

set_option autoImplicit false

namespace EntityScaffold.Yaml

open Text

/-- What a node is to be taken for. -/
inductive Tag where
  | null
  | bool
  | int
  | float
  | text
  | bytes
  /-- A day or a moment. -/
  | moment
  | list
  | map
  | set
  /-- A list of pairs, one behind the other. -/
  | pairs
  /-- The key under which a map takes in the entries of others. -/
  | merge
  /-- The key under which a map has the scalar that it may stand for. -/
  | value
  /-- A tag that no value can be made of. -/
  | unknown
  deriving DecidableEq, Repr

namespace Tag

/-- The name space of the known tags. -/
def coreSpace : Text := "tag:yaml.org,2002:"

/-- The known tags by name. -/
def names : List (Text × Tag) :=
  [("null", .null), ("bool", .bool), ("int", .int), ("float", .float), ("str", .text),
    ("binary", .bytes), ("timestamp", .moment), ("seq", .list), ("map", .map), ("set", .set),
    ("omap", .pairs), ("pairs", .pairs), ("merge", .merge), ("value", .value)]

/-- The tag of a full name. -/
def ofName (name : Text) : Tag :=
  ((after? coreSpace name).bind fun short => names.lookup short).getD .unknown

/-! ## What texts look like -/

def nullWords : List Text := List.map String.toList ["", "~", "null", "Null", "NULL"]

def boolWords : List Text :=
  List.map String.toList ["yes", "Yes", "YES", "no", "No", "NO", "true", "True", "TRUE", "false",
    "False", "FALSE", "on", "On", "ON", "off", "Off", "OFF"]

def infinityWords : List Text := List.map String.toList [".inf", ".Inf", ".INF"]

def nanWords : List Text := List.map String.toList [".nan", ".NaN", ".NAN"]

/-- A text without a sign. -/
def unsigned : Text → Text
  | '-' :: t | '+' :: t => t
  | t => t

def isDigitOrLine (c : Char) : Bool := isAsciiDigit c || c == '_'

/-- Digits and underscores, a digit first. -/
def isDigits (t : Text) : Bool := t.head?.any isAsciiDigit && t.all isDigitOrLine

/-- A part of a number to the base sixty, but not the first one. -/
def isSixtieth (t : Text) : Bool :=
  match t with
  | [c] => isAsciiDigit c
  | [c, d] => isAsciiDigit c && c.toNat < '6'.toNat && isAsciiDigit d
  | _ => false

/-- A number to the base sixty, its parts between colons. -/
def isSixties (t : Text) : Bool :=
  match splitAt ':' t with
  | first :: next :: more => isDigits first && (next :: more).all isSixtieth
  | _ => false

/-- The digits of a base behind a zero, underscores among them. -/
def isOfBase (base : Nat) (ds : Text) : Bool :=
  ds != [] && ds.all fun c => c == '_' || (hexValue? c).any (· < base)

/-- An integer: binary, hexadecimal, octal, decimal, or to the base sixty. -/
def isInteger (t : Text) : Bool :=
  match unsigned t with
  | ['0'] => true
  | '0' :: 'b' :: ds => isOfBase 2 ds
  | '0' :: 'x' :: ds => isOfBase 16 ds
  | '0' :: ds => isOfBase 8 ds
  | t => isDigits t || isSixties t

/-- Nothing, or the letter e, a sign and digits. -/
def isExponent : Text → Bool
  | [] => true
  | e :: sign :: ds =>
    (e == 'e' || e == 'E') && (sign == '+' || sign == '-') && ds != [] && ds.all isAsciiDigit
  | _ => false

/-- A number with a point: decimal, or to the base sixty.  No sign stands before a point. -/
def isPointed (t : Text) : Bool :=
  let before := (unsigned t).takeWhile (· != '.')
  match (unsigned t).dropWhile (· != '.') with
  | [] => false
  | _ :: behind =>
    let places := behind.takeWhile isDigitOrLine
    if before = [] then
      t.head? = some '.' && isDigits places && isExponent (behind.drop places.length)
    else (isDigits before && isExponent (behind.drop places.length)) ||
      (isSixties before && behind = places)

/-- A floating-point number. -/
def isFloat (t : Text) : Bool :=
  infinityWords.contains (unsigned t) || nanWords.contains t || isPointed t

/-- A text without a line feed at its end. -/
def dropLineFeed (t : Text) : Text := if t.getLast? = some '\n' then t.dropLast else t

/-- What a text looks like; a line feed at its end does not count. -/
def ofPlain (t : Text) : Tag :=
  let t := if 1 < t.length then dropLineFeed t else t
  if nullWords.contains t then .null
  else if boolWords.contains t then .bool
  else if isFloat t then .float
  else if isInteger t then .int
  else if t = "<<" then .merge
  else if t = "=" then .value
  else if (MomentText.read t).any (·.isFull) then .moment
  else if t = "!" || t = "&" || t = "*" then .unknown
  else .text

end Tag

end EntityScaffold.Yaml
