import EntityScaffold.Text.Digit
import EntityScaffold.Value.Basic

/-!
# Dates and moments in figures

A day is written as year, month and day with hyphens; a time of day may follow it, with a
fraction of a second and an offset from universal time.

* `MomentText.read` — the figures of a text.
* `MomentText.atom` — the day or moment that they stand for.
-/

set_option autoImplicit false

namespace EntityScaffold.Yaml

open Text

/-- An offset from universal time as it is written. -/
inductive ZoneText where
  | universal
  | offset (isBehind : Bool) (hours minutes : Text)
  deriving DecidableEq, Repr

/-- A time of day as it is written. -/
structure TimeText where
  hour : Text
  minute : Text
  second : Text
  fraction : Text
  zone : Option ZoneText
  deriving DecidableEq, Repr

/-- A day, perhaps with a time, as it is written. -/
structure MomentText where
  year : Text
  month : Text
  day : Text
  time : Option TimeText
  deriving DecidableEq, Repr

/-- The digits that a text begins with, at least and at most so many, and the rest. -/
def figures (least most : Nat) (t : Text) : Option (Text × Text) :=
  let ds := (t.take most).takeWhile isAsciiDigit
  if ds.length < least then none else some (ds, t.drop ds.length)

/-- The offset behind a time of day; there may be none. -/
def ZoneText.read : Text → Option (Option ZoneText)
  | [] => some none
  | t =>
    match t.dropWhile isSpaceTab with
    | ['Z'] => some (some .universal)
    | sign :: t => do
      if sign ≠ '+' && sign ≠ '-' then none
      else
        let (hours, t) ← figures 1 2 t
        if t = [] then some (some (.offset (sign = '-') hours []))
        else
          let (minutes, t) ← figures 2 2 (← after? ":" t)
          if t = [] then some (some (.offset (sign = '-') hours minutes)) else none
    | [] => none

/-- What separates a time of day from its day is dropped: a letter, or spaces and tabs. -/
def dropSeparation (t : Text) : Option Text :=
  match t with
  | [] => none
  | c :: more =>
    if c = 'T' || c = 't' then some more
    else if isSpaceTab c then some (t.dropWhile isSpaceTab)
    else none

/-- The time of day behind a day; there may be none. -/
def TimeText.read : Text → Option (Option TimeText)
  | [] => some none
  | t => do
    let (hour, t) ← figures 1 2 (← dropSeparation t)
    let (minute, t) ← figures 2 2 (← after? ":" t)
    let (second, t) ← figures 2 2 (← after? ":" t)
    let (fraction, t) := match t with
      | '.' :: t => (t.takeWhile isAsciiDigit, t.dropWhile isAsciiDigit)
      | t => ([], t)
    let zone ← ZoneText.read t
    return some ⟨hour, minute, second, fraction, zone⟩

namespace MomentText

/-- The figures of a text, if it is a day or a moment. -/
def read (t : Text) : Option MomentText := do
  let (year, t) ← figures 4 4 t
  let (month, t) ← figures 1 2 (← after? "-" t)
  let (day, t) ← figures 1 2 (← after? "-" t)
  return ⟨year, month, day, ← TimeText.read t⟩

/-- Whether a day without a time has all its figures. -/
def isFull (m : MomentText) : Bool :=
  m.time.isSome || (m.month.length = 2 && m.day.length = 2)

/-- The minutes of an offset. -/
def minutesOf : ZoneText → Int
  | .universal => 0
  | .offset isBehind hours minutes =>
    let size : Int := 60 * natOfDigits 10 hours + natOfDigits 10 minutes
    if isBehind then -size else size

/-- The millionths of a second of a fraction; more figures do not count. -/
def microseconds (fraction : Text) : Nat :=
  natOfDigits 10 (fraction.take 6 ++ List.replicate (6 - fraction.length) '0')

/-- The day or moment that the figures stand for. -/
def atom (m : MomentText) : Except CalendarError Atom := do
  let day := Date.of? (natOfDigits 10 m.year) (natOfDigits 10 m.month) (natOfDigits 10 m.day)
  match m.time with
  | none => return .date (← day)
  | some time =>
    let offset ← time.zone.mapM fun zone => Moment.offset? (minutesOf zone)
    return .moment (← Moment.of? day (natOfDigits 10 time.hour) (natOfDigits 10 time.minute)
      (natOfDigits 10 time.second) (microseconds time.fraction) offset)

end MomentText

end EntityScaffold.Yaml
