import EntityScaffold.Text.Digit
import EntityScaffold.Value.Numeral

/-!
# Integers as texts

An integer of plan data may be given as a text: white space around it, a plus sign, zeros in front,
a point with zeros behind it, and single underscores between its digits do not count.

* `IntegerText.read` — the integer that a text denotes.
-/

set_option autoImplicit false

namespace EntityScaffold.Schema.IntegerText

open Text

/-- Why a text denotes no integer. -/
inductive Defect where
  | malformed
  | tooLong
  deriving DecidableEq, Repr

/-- White space that may stand around an integer; the ASCII separators are none. -/
def isSpace (c : Char) : Bool := isBlank c && !(0x1c ≤ c.toNat && c.toNat ≤ 0x1f)

/-- An integer in its plain form: a minus sign or none, and digits of which the first is no zero
unless it is the only one. -/
def plain (t : Text) : Except Defect Int :=
  let negative := t.head? = some '-'
  let digits := if negative then t.drop 1 else t
  let run := digits.takeWhile isAsciiDigit
  if run = [] || (run.head? = some '0' && run ≠ ['0']) then .error .malformed
  else if Numeral.longest < t.length - (digits.length - run.length) then .error .tooLong
  else if run ≠ digits then .error .malformed
  else .ok (if negative then -(natOfDigits 10 run : Int) else natOfDigits 10 run)

/-- What is left of a text behind a zero that may be spared, with the character before it.  A
point needs a digit before it, and so does the end. -/
def behindZeros (before : Char) : Text → Option Text
  | [] => some [before]
  | c :: t =>
    if c = '0' || c = '_' then behindZeros c t
    else if isAsciiDigit c then some (c :: t)
    else if c = '.' then some (before :: c :: t)
    else none

/-- A text without the zeros in front. -/
def dropZeros : Text → Option Text
  | [] => none
  | c :: t =>
    if c = '0' then behindZeros c t else if isAsciiDigit c || c = '-' then some (c :: t) else none

/-- A text without a point that only zeros stand behind, at least one. -/
def dropPlaces (t : Text) : Text :=
  match cutAt? "." t with
  | some (before, places) => if places ≠ [] && places.all (· == '0') then before else t
  | none => t

/-- A text without its underscores, if each of them stands alone between two others. -/
def dropUnderscores (t : Text) : Text :=
  if (splitAt '_' t).all (· ≠ []) then t.filter (· != '_') else t

/-- A text without all that does not count. -/
def cleaned (t : Text) : Option Text := do
  let t := trimWhile isSpace t
  let t := if startsWith "+" t && !startsWith "+-" t then t.drop 1 else t
  let t ← dropZeros t
  return dropUnderscores (dropPlaces t)

/-- The integer that a text denotes. -/
def read (t : Text) : Except Defect Int :=
  match plain t with
  | .error .malformed =>
    match cleaned t with
    | some t => plain t
    | none => .error .malformed
  | result => result

end EntityScaffold.Schema.IntegerText
