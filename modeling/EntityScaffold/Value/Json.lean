import EntityScaffold.Text.Digit
import EntityScaffold.Value.Basic
import EntityScaffold.Value.Misreading
import EntityScaffold.Value.Numeral

/-!
# Reading JSON

`Json.read` reads a text that is one JSON value with white space around it.  The words `NaN`,
`Infinity` and `-Infinity` are numbers; of entries with the same key the last one counts.
-/

set_option autoImplicit false

namespace EntityScaffold.Json

open Text

def isSpace (c : Char) : Bool := c == ' ' || c == '\t' || c == '\n' || c == '\r'

def skipSpace (t : Text) : Text := t.dropWhile isSpace

/-- Four hexadecimal digits. -/
def hex4? : Text → Option (Nat × Text)
  | a :: b :: c :: d :: t => do
    some ((← hexValue? a) * 4096 + (← hexValue? b) * 256 + (← hexValue? c) * 16 + (← hexValue? d), t)
  | _ => none

/-- The code point of a `\u` escape, of which the `\u` has been read; two surrogates make one. -/
def codePoint? (t : Text) : Option (Nat × Text) := do
  let (high, rest) ← hex4? t
  if 0xd800 ≤ high && high ≤ 0xdbff then
    match (after? "\\u" rest).bind hex4? with
    | some (low, behind) =>
      if 0xdc00 ≤ low && low ≤ 0xdfff then
        some (0x10000 + (high - 0xd800) * 0x400 + (low - 0xdc00), behind)
      else some (high, rest)
    | none => some (high, rest)
  else some (high, rest)

/-- The character that a one-letter escape stands for. -/
def shortEscape? (c : Char) : Option Char :=
  [('"', '"'), ('\\', '\\'), ('/', '/'), ('b', Char.ofNat 8), ('f', Char.ofNat 12), ('n', '\n'),
    ('r', '\r'), ('t', '\t')].lookup c

/-- The contents of a string of which the opening quote has been read. -/
def stringFrom (fuel : Nat) (t : Text) : Option (Text × Text) :=
  match fuel, t with
  | 0, _ => none
  | _, [] => none
  | fuel + 1, c :: t =>
    if c = '"' then some ([], t)
    else if c = '\\' then
      match t with
      | 'u' :: t => do
        let (n, t) ← codePoint? t
        let (s, rest) ← stringFrom fuel t
        some (Char.ofNat n :: s, rest)
      | e :: t => do
        let d ← shortEscape? e
        let (s, rest) ← stringFrom fuel t
        some (d :: s, rest)
      | [] => none
    else if c.toNat < 0x20 then none
    else do
      let (s, rest) ← stringFrom fuel t
      some (c :: s, rest)

/-- A fraction: a point and at least one digit. -/
def fraction (t : Text) : Option (Text × Text) :=
  match t with
  | '.' :: t =>
    let digits := t.takeWhile isAsciiDigit
    if digits = [] then none else some (digits, t.dropWhile isAsciiDigit)
  | _ => none

/-- An exponent: the letter e, perhaps a sign, and at least one digit. -/
def exponent (t : Text) : Option (Int × Text) :=
  match t with
  | e :: t =>
    if e = 'e' || e = 'E' then
      let negative := t.head? = some '-'
      let t := if negative || t.head? = some '+' then t.drop 1 else t
      let digits := t.takeWhile isAsciiDigit
      if digits = [] then none
      else
        let size : Int := natOfDigits 10 digits
        some (if negative then -size else size, t.dropWhile isAsciiDigit)
    else none
  | [] => none

/-- What is read, if it is there. -/
def orMalformed {α : Type} : Option α → Except Misreading α
  | some a => .ok a
  | none => .error .malformed

/-- An integer of decimal digits. -/
def integer (negative : Bool) (digits : Text) : Except Misreading Value :=
  if Numeral.longest < digits.length then .error (.content (.longInteger digits.length))
  else .ok (.int (if negative then -(natOfDigits 10 digits : Int) else natOfDigits 10 digits))

/-- A number.  With a fraction or an exponent it is a floating-point number. -/
def number (t : Text) : Except Misreading (Value × Text) := do
  let negative := t.head? = some '-'
  let t := if negative then t.drop 1 else t
  let digits := if t.head? = some '0' then ['0'] else t.takeWhile isAsciiDigit
  let t := t.drop digits.length
  if digits = [] then throw .malformed
  match fraction t, exponent ((fraction t).elim t (·.2)) with
  | none, none => return (← integer negative digits, t)
  | frac, exp =>
    let places := frac.elim [] (·.1)
    let size := exp.elim 0 (·.1)
    let rest := exp.elim (frac.elim t (·.2)) (·.2)
    let digits := natOfDigits 10 (digits ++ places)
    return (.float (.ofDecimal negative digits (size - places.length)), rest)

/-- The values that are words. -/
def words : List (Text × Value) :=
  [("null", .null), ("true", .bool true), ("false", .bool false), ("NaN", .float .nan),
    ("Infinity", .float (.infinite false)), ("-Infinity", .float (.infinite true))]

def word? (t : Text) : Option (Value × Text) :=
  words.findSome? fun (w, v) => (after? w t).map fun rest => (v, rest)

/-- A string of which the opening quote has been read. -/
def string (t : Text) : Except Misreading (Text × Text) := orMalformed (stringFrom (t.length + 1) t)

mutual

/-- The value that the text begins with; `fuel` bounds the number of steps. -/
def value (fuel : Nat) (t : Text) : Except Misreading (Value × Text) :=
  match fuel, t with
  | 0, _ | _, [] => .error .malformed
  | fuel + 1, c :: t =>
    if c = '"' then (string t).map fun (s, rest) => (.text s, rest)
    else if c = '[' then
      match skipSpace t with
      | ']' :: rest => .ok (.list [], rest)
      | t => (elements fuel t).map fun (vs, rest) => (.list vs, rest)
    else if c = '\x7b' then
      match skipSpace t with
      | '\x7d' :: rest => .ok (.map [], rest)
      | t => (entries fuel t).map fun (es, rest) => (.map (Entries.ofList es), rest)
    else match word? (c :: t) with
      | some r => .ok r
      | none => number (c :: t)

/-- The elements of a list up to and with its closing bracket. -/
def elements (fuel : Nat) (t : Text) : Except Misreading (List Value × Text) :=
  match fuel with
  | 0 => .error .malformed
  | fuel + 1 => do
    let (v, t) ← value fuel (skipSpace t)
    match skipSpace t with
    | ',' :: t => do
      let (vs, rest) ← elements fuel t
      return (v :: vs, rest)
    | ']' :: rest => return ([v], rest)
    | _ => throw .malformed

/-- The entries of a map up to and with its closing brace. -/
def entries (fuel : Nat) (t : Text) : Except Misreading (List (Atom × Value) × Text) :=
  match fuel with
  | 0 => .error .malformed
  | fuel + 1 => do
    let (key, t) ← string (← orMalformed (after? "\"" (skipSpace t)))
    let t ← orMalformed (after? ":" (skipSpace t))
    let (v, t) ← value fuel (skipSpace t)
    match skipSpace t with
    | ',' :: t => do
      let (es, rest) ← entries fuel t
      return ((.text key, v) :: es, rest)
    | '\x7d' :: rest => return ([(.text key, v)], rest)
    | _ => throw .malformed

end

/-- The value that the whole text is. -/
def read (t : Text) : Except Misreading Value := do
  let (v, rest) ← value (2 * t.length + 2) (skipSpace t)
  if skipSpace rest = [] then return v else throw .malformed

end EntityScaffold.Json
