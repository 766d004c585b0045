import EntityScaffold.Text.Quoted

/-!
# Dates and moments

Days of the calendar, and moments with a time of day and perhaps an offset from universal time.

* `Date.of?`, `Moment.of?` — a day or a moment, unless its numbers are out of range.
* `Moment.instant?` — the seconds of a moment with an offset, under which such moments compare.
-/

set_option autoImplicit false

namespace EntityScaffold

open Text

/-- Why numbers are no day, no moment or no offset. -/
inductive CalendarError where
  | year (n : Nat)
  | month
  | day
  | hour
  | minute
  | second
  /-- An offset of a whole day or more. -/
  | offset (minutes : Int)
  deriving DecidableEq, Repr

/-- A day of the calendar. -/
structure Date where
  year : Nat
  month : Nat
  day : Nat
  deriving DecidableEq, Repr

/-- A moment, with the minutes that its time of day is ahead of universal time if that is known. -/
structure Moment where
  date : Date
  hour : Nat
  minute : Nat
  second : Nat
  microsecond : Nat := 0
  offset : Option Int := none
  deriving DecidableEq, Repr

/-- A number in decimal digits, with zeros in front up to a width. -/
def padNat (width n : Nat) : Text :=
  let digits := ofNat n
  List.replicate (width - digits.length) '0' ++ digits

namespace Date

def isLeap (year : Nat) : Bool := year % 4 == 0 && (year % 100 != 0 || year % 400 == 0)

/-- The number of days of a month. -/
def monthLength (year month : Nat) : Nat :=
  if month = 2 then if isLeap year then 29 else 28
  else if month = 4 || month = 6 || month = 9 || month = 11 then 30
  else 31

/-- The day of a year, a month and a day of the month. -/
def of? (year month day : Nat) : Except CalendarError Date :=
  if year < 1 || 9999 < year then .error (.year year)
  else if month < 1 || 12 < month then .error .month
  else if day < 1 || monthLength year month < day then .error .day
  else .ok ⟨year, month, day⟩

/-- The number of days of a year before a month. -/
def daysBefore (year : Nat) : Nat → Nat
  | 0 | 1 => 0
  | month + 2 => daysBefore year (month + 1) + monthLength year (month + 1)

/-- The number of days from the first of January of the year one. -/
def ordinal (d : Date) : Nat :=
  let before := d.year - 1
  365 * before + before / 4 - before / 100 + before / 400 + daysBefore d.year d.month + (d.day - 1)

/-- A day in figures. -/
def text (d : Date) : Text :=
  padNat 4 d.year ++ "-" ++ padNat 2 d.month ++ "-" ++ padNat 2 d.day

/-- The numbers of a day. -/
def numbers (d : Date) : List Nat := [d.year, d.month, d.day]

/-- A day inside another value. -/
def inner (d : Date) : Text :=
  "datetime.date(" ++ joinWith ", " (d.numbers.map ofNat) ++ ")"

end Date

/-- A span of minutes in whole days, which may be negative, and seconds. -/
def spanText (minutes : Int) : Text :=
  let days := Int.fdiv minutes 1440
  let seconds := 60 * (minutes - 1440 * days)
  let parts :=
    (if days = 0 then [] else [("days=" : Text) ++ ofInt days]) ++
      if seconds = 0 then [] else [("seconds=" : Text) ++ ofInt seconds]
  "datetime.timedelta(" ++ joinWith ", " parts ++ ")"

/-- The wording of a calendar error. -/
def CalendarError.message : CalendarError → Text
  | .year n => "year " ++ ofNat n ++ " is out of range"
  | .month => "month must be in 1..12"
  | .day => "day is out of range for month"
  | .hour => "hour must be in 0..23"
  | .minute => "minute must be in 0..59"
  | .second => "second must be in 0..59"
  | .offset minutes =>
    "offset must be a timedelta strictly between -timedelta(hours=24) and timedelta(hours=24), not " ++
      spanText minutes ++ "."

namespace Moment

/-- An offset, which is less than a day. -/
def offset? (minutes : Int) : Except CalendarError Int :=
  if minutes.natAbs < 1440 then .ok minutes else .error (.offset minutes)

/-- The moment of a day, a time of day and an offset. -/
def of? (date : Except CalendarError Date) (hour minute second microsecond : Nat)
    (offset : Option Int) : Except CalendarError Moment := do
  let date ← date
  if 23 < hour then .error .hour
  else if 59 < minute then .error .minute
  else if 59 < second then .error .second
  else return ⟨date, hour, minute, second, microsecond, offset⟩

/-- The seconds of a moment in universal time, if its offset is known. -/
def instant? (m : Moment) : Option Int :=
  m.offset.map fun minutes =>
    86400 * (m.date.ordinal : Int) + 3600 * m.hour + 60 * (m.minute - minutes) + m.second

/-- An offset in figures. -/
def offsetText (minutes : Int) : Text :=
  (if minutes < 0 then ("-" : Text) else "+") ++ padNat 2 (minutes.natAbs / 60) ++ ":" ++
    padNat 2 (minutes.natAbs % 60)

/-- A moment in figures. -/
def text (m : Moment) : Text :=
  m.date.text ++ " " ++ padNat 2 m.hour ++ ":" ++ padNat 2 m.minute ++ ":" ++ padNat 2 m.second ++
    (if m.microsecond = 0 then [] else ("." : Text) ++ padNat 6 m.microsecond) ++
    m.offset.elim [] offsetText

/-- The numbers of a moment; no zeros follow its minute. -/
def numbers (m : Moment) : List Nat :=
  m.date.numbers ++ [m.hour, m.minute] ++
    if m.microsecond ≠ 0 then [m.second, m.microsecond]
    else if m.second ≠ 0 then [m.second]
    else []

/-- An offset inside another value. -/
def zoneText (minutes : Int) : Text :=
  if minutes = 0 then "datetime.timezone.utc"
  else "datetime.timezone(" ++ spanText minutes ++ ")"

/-- A moment inside another value. -/
def inner (m : Moment) : Text :=
  "datetime.datetime(" ++ joinWith ", " (m.numbers.map ofNat ++
    m.offset.toList.map fun minutes => ("tzinfo=" : Text) ++ zoneText minutes) ++ ")"

end Moment

end EntityScaffold
