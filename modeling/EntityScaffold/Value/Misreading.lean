import EntityScaffold.Value.Calendar

/-!
# Misreadings

Why a text is not read as a value: it breaks the rules of its format, or it keeps to them and says
of a part that it is what it cannot be.
-/

set_option autoImplicit false

namespace EntityScaffold

open Text

/-- Why no value can be made of a part of a text. -/
inductive ContentError where
  /-- An integer of too many digits. -/
  | longInteger (digits : Nat)
  | notAnInteger (base : Nat) (t : Text)
  | notANumber (t : Text)
  /-- A number without a single character. -/
  | emptyNumber
  /-- A number of so many parts that the first counts more than any number. -/
  | tooManyParts
  | notATruthValue (word : Text)
  | notAMoment
  /-- A map where the figures of a moment have to stand. -/
  | momentOfMap
  | calendar (e : CalendarError)
  /-- A number beyond all characters. -/
  | notACharacter
  /-- A number so far beyond all characters that it is not even looked at as one. -/
  | hugeCharacter
  deriving DecidableEq, Repr

namespace ContentError

/-- How much of a text is shown that is no integer. -/
def shownLength : Nat := 200

def message : ContentError → Text
  | .longInteger digits =>
    "Exceeds the limit (4300 digits) for integer string conversion: value has " ++ ofNat digits ++
      " digits; use sys.set_int_max_str_digits() to increase the limit"
  | .notAnInteger base t =>
    "invalid literal for int() with base " ++ ofNat base ++ ": " ++ (quoted t).take shownLength
  | .notANumber t => "could not convert string to float: " ++ quoted t
  | .emptyNumber => "string index out of range"
  | .tooManyParts => "int too large to convert to float"
  | .notATruthValue word => quoted word
  | .notAMoment => "'NoneType' object has no attribute 'groupdict'"
  | .momentOfMap => "expected string or bytes-like object, got 'list'"
  | .calendar e => e.message
  | .notACharacter => "chr() arg not in range(0x110000)"
  | .hugeCharacter => "Python int too large to convert to C int"

/-- Whether the part has a value that is out of bounds.  Who loads a file may tell that and go
on; the other errors end the run. -/
def isAboutValue : ContentError → Bool
  | .longInteger _ | .notAnInteger .. | .notANumber _ | .calendar _ | .notACharacter => true
  | .emptyNumber | .tooManyParts | .notATruthValue _ | .notAMoment | .momentOfMap
  | .hugeCharacter => false

end ContentError

/-- Why a text is not read. -/
inductive Misreading where
  | malformed
  | content (e : ContentError)
  deriving DecidableEq, Repr

end EntityScaffold
