import EntityScaffold.Text.Case
import EntityScaffold.Text.Digit
import EntityScaffold.Value.Binary64

/-!
# Numerals

Numbers as they may be written freely: with white space around them, a sign, and decimal digits
of any script.

* `Numeral.integer` — an integer to a base; to the base ten only up to a number of digits.
* `Numeral.decimal?` — a number with a point and an exponent, or a word for an infinite one.
-/

set_option autoImplicit false

namespace EntityScaffold.Numeral

open Text

/-- Why a text is no integer. -/
inductive Defect where
  | malformed
  /-- It has more digits than an integer may have. -/
  | tooLong (digits : Nat)
  deriving DecidableEq, Repr

/-- The most digits that an integer may have to the base ten. -/
def longest : Nat := 4300

/-- What may stand around a numeral. -/
def isSpace (c : Char) : Bool :=
  c == ' ' || ('\t' ≤ c && c ≤ '\r') || (0x80 ≤ c.toNat && isBlank c)

/-- A character with digits of all scripts made the same. -/
def plainDigit (c : Char) : Char := (digitValue? c).elim c fun d => Char.ofNat (48 + d)

/-- A sign, and what stands behind it. -/
def signed (t : Text) : Bool × Text :=
  match t with
  | '-' :: t => (true, t)
  | '+' :: t => (false, t)
  | t => (false, t)

/-- The sign and the rest of a numeral, with nothing around it. -/
def opened (t : Text) : Bool × Text := signed ((trimWhile isSpace t).map plainDigit)

/-- The letter that marks a base behind a zero. -/
def mark? : Nat → Option Char
  | 2 => some 'b'
  | 8 => some 'o'
  | 16 => some 'x'
  | _ => none

/-- A numeral without the mark of its base. -/
def dropMark (base : Nat) (t : Text) : Text :=
  match t with
  | '0' :: c :: ds => if mark? base = some (asciiLower c) then ds else t
  | _ => t

/-- Whether a character is a digit of a base. -/
def isDigitOf (base : Nat) (c : Char) : Bool := (hexValue? c).any (· < base)

/-- An integer to a base. -/
def integer (base : Nat) (t : Text) : Except Defect Int :=
  let (negative, t) := opened t
  let t := dropMark base t
  let digits := t.takeWhile (isDigitOf base)
  if base = 10 && longest < digits.length then .error (.tooLong digits.length)
  else if digits = [] || t.length ≠ digits.length then .error .malformed
  else .ok (if negative then -(natOfDigits base digits : Int) else natOfDigits base digits)

/-- An exponent: the letter e, perhaps a sign, and at least one digit. -/
def exponent? : Text → Option Int
  | [] => some 0
  | e :: t =>
    let (negative, digits) := signed t
    if asciiLower e = 'e' && digits ≠ [] && digits.all isAsciiDigit then
      some (if negative then -(natOfDigits 10 digits : Int) else natOfDigits 10 digits)
    else none

/-- A number with a point and an exponent, or a word for an infinite one or for none. -/
def decimal? (t : Text) : Option Binary64 :=
  let (negative, t) := opened t
  let word := t.map asciiLower
  if word = "inf" || word = "infinity" then some (.infinite negative)
  else if word = "nan" then some .nan
  else
    let before := t.takeWhile isAsciiDigit
    let t := t.dropWhile isAsciiDigit
    let (behind, t) := match t with
      | '.' :: t => (t.takeWhile isAsciiDigit, t.dropWhile isAsciiDigit)
      | t => ([], t)
    if before = [] && behind = [] then none
    else (exponent? t).map fun exponent =>
      .ofDecimal negative (natOfDigits 10 (before ++ behind)) (exponent - behind.length)

end EntityScaffold.Numeral
