import ReplCore.Value

/-!
# Moments

A moment is a number of microseconds since the start of 1970, and is written as a date and a time of
day in universal time. Only the years from 1 to 9999 can be written.
-/

namespace ReplCore.Log

/-- Digits with zeros before them up to a width. -/
def padded (width n : Nat) : Text :=
  let digits := Text.ofNat n
  List.replicate (width - digits.length) '0' ++ digits

/-- A date of the Gregorian calendar. -/
structure Date where
  year : Int
  month : Nat
  day : Nat
deriving Repr, DecidableEq

/-- Whether a year has a leap day. -/
def isLeapYear (year : Int) : Bool :=
  (year % 4 = 0 && year % 100 ≠ 0) || year % 400 = 0

/-- The number of days in each month of a year. -/
def monthLengths (year : Int) : List Nat :=
  [31, if isLeapYear year then 29 else 28, 31, 30, 31, 30, 31, 31, 30, 31, 30, 31]

/-- The number of days from the first day of year 1 to the first day of the given year. -/
def daysBefore (year : Int) : Int :=
  let y := year - 1
  365 * y + y / 4 - y / 100 + y / 400

/-- The number of days from the first day of year 1 to the first day of 1970. -/
def epochDays : Int := daysBefore 1970

/-- The month and the day, each counted from one, of a day of the year, counted from zero. -/
def monthAndDay : (month : Nat) → (lengths : List Nat) → (day : Nat) → Nat × Nat
  | month, [], day => (month, day + 1)
  | month, n :: lengths, day =>
    if day < n then (month, day + 1) else monthAndDay (month + 1) lengths (day - n)

/-- The date of a day, counted from the first day of year 1. The year is the last one with no more
days before it; one of three neighbours of an estimate. -/
def dateOfDays (days : Int) : Date :=
  let estimate := days * 400 / 146097 + 1
  let year :=
    if daysBefore (estimate + 1) ≤ days then estimate + 1
    else if daysBefore estimate ≤ days then estimate
    else estimate - 1
  let (month, day) := monthAndDay 1 (monthLengths year) (days - daysBefore year).toNat
  ⟨year, month, day⟩

/-- Why a moment cannot be written. -/
inductive MomentError where
  /-- The value is not a number. -/
  | notNumber
  /-- The seconds do not fit a machine word. -/
  | manySeconds
  /-- The year does not fit the calendar of the machine. -/
  | noDate
  /-- The year is not one from 1 to 9999. -/
  | year (y : Int)
deriving Repr, DecidableEq

/-- What is said about a moment that cannot be written. -/
def MomentError.message : MomentError → Text
  | notNumber => "not a number of seconds".toList
  | manySeconds => "timestamp out of range for platform time_t".toList
  | noDate => "year out of range".toList
  | year y => "year ".toList ++ Text.ofInt y ++ " is out of range".toList

/-- Whether a number of seconds fits a machine word. -/
def fitsWord (seconds : Int) : Bool :=
  decide (-Int.pow 2 63 ≤ seconds) && decide (seconds < Int.pow 2 63)

/-- Whether the machine can count the years from 1900 to a year. -/
def isCounted (year : Int) : Bool :=
  decide (-Int.pow 2 31 ≤ year - 1900) && decide (year - 1900 < Int.pow 2 31)

/-- A moment written as a date and a time of day; microseconds are left out if they are zero. -/
def writtenMoment (microseconds : Int) : Except MomentError Text :=
  let micros := (microseconds % 1000000).toNat
  let seconds := microseconds / 1000000
  let ofDay := (seconds % 86400).toNat
  let date := dateOfDays (seconds / 86400 + epochDays)
  if !fitsWord seconds then .error .manySeconds
  else if !isCounted date.year then .error .noDate
  else if date.year < 1 ∨ 9999 < date.year then .error (.year (date.year.bmod (Nat.pow 2 32)))
  else
    .ok (padded 4 date.year.toNat ++ "-".toList ++ padded 2 date.month ++ "-".toList
      ++ padded 2 date.day ++ "T".toList ++ padded 2 (ofDay / 3600) ++ ":".toList
      ++ padded 2 (ofDay / 60 % 60) ++ ":".toList ++ padded 2 (ofDay % 60)
      ++ (if micros = 0 then [] else ".".toList ++ padded 6 micros) ++ "+00:00".toList)

/-- The number of microseconds in a time given in seconds, as a fraction. The whole seconds are
taken off first, so that their fraction keeps its precision, and what is left is counted in
microseconds with double precision before it is rounded. -/
def microsecondsOf (n : Int) (d : Nat) : Int :=
  let (m, e) := (Double.nearest (n.natAbs % d * 1000000) d).ratio
  let size : Int := n.natAbs / d * 1000000 + roundedQuotient m e
  if n < 0 then -size else size

/-- The number of microseconds in a value that gives a time in seconds. -/
def microseconds? (v : Value) : Except MomentError Int :=
  (v.ratio?.map fun (n, d) => microsecondsOf n d).elim (.error .notNumber) .ok

end ReplCore.Log
