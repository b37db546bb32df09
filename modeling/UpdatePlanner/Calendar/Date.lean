/-!
# Calendar dates

Dates of the proleptic Gregorian calendar, and their count of days from 1 January 1970.  Years
are counted in cycles of 400, which all have the same number of days; a year begins in March, so
that the leap day is its last.

## Main definitions

* `Date` — a year, a month and a day;
* `Date.days` — the number of days since 1 January 1970;
* `Date.ofDays` — the date after a number of days.

## Main results

* `Date.days_epoch` — the count starts on 1 January 1970.
-/

namespace UpdatePlanner

/-- A year, a month and a day. -/
structure Date where
  year : Int
  month : Nat
  day : Nat
  deriving DecidableEq, Repr

namespace Date

/-- Whether a year has a leap day. -/
def isLeapYear (year : Int) : Bool :=
  year % 4 == 0 && (year % 100 != 0 || year % 400 == 0)

/-- The number of days of a month. -/
def monthLength (year : Int) (month : Nat) : Nat :=
  if month = 2 then (if isLeapYear year then 29 else 28)
  else if month = 4 || month = 6 || month = 9 || month = 11 then 30
  else 31

/-- Whether the month and the day exist. -/
def isValid (d : Date) : Bool :=
  decide (1 ≤ d.month ∧ d.month ≤ 12 ∧ 1 ≤ d.day ∧ d.day ≤ monthLength d.year d.month)

/-- The days in a cycle of 400 years. -/
def cycleDays : Int := 146097

/-- The days from 1 March of the year 0 to 1 January 1970. -/
def epochDays : Int := 719468

/-- The number of days since 1 January 1970. -/
def days (d : Date) : Int :=
  -- January and February belong to the year that began in the March before.
  let year := if d.month ≤ 2 then d.year - 1 else d.year
  let cycle := year / 400
  let yearOfCycle := year % 400
  let monthFromMarch : Int := (d.month + 9) % 12
  -- From March on, every five months have 31, 30, 31, 30 and 31 days: 153 together.
  let dayOfYear := (153 * monthFromMarch + 2) / 5 + d.day - 1
  let dayOfCycle := yearOfCycle * 365 + yearOfCycle / 4 - yearOfCycle / 100 + dayOfYear
  cycle * cycleDays + dayOfCycle - epochDays

/-- The date that lies a number of days after 1 January 1970. -/
def ofDays (days : Int) : Date :=
  let shifted := days + epochDays
  let cycle := shifted / cycleDays
  let dayOfCycle := shifted % cycleDays
  -- The leap days passed are taken off, so that every year has 365 days.
  let yearOfCycle :=
    (dayOfCycle - dayOfCycle / 1460 + dayOfCycle / 36524 - dayOfCycle / 146096) / 365
  let dayOfYear := dayOfCycle - (365 * yearOfCycle + yearOfCycle / 4 - yearOfCycle / 100)
  let monthFromMarch := (5 * dayOfYear + 2) / 153
  let day := dayOfYear - (153 * monthFromMarch + 2) / 5 + 1
  let month := if monthFromMarch < 10 then monthFromMarch + 3 else monthFromMarch - 9
  let year := yearOfCycle + cycle * 400
  ⟨if month ≤ 2 then year + 1 else year, month.toNat, day.toNat⟩

theorem days_epoch : days ⟨1970, 1, 1⟩ = 0 := by decide

/-- A number written with at least the given number of digits. -/
def padded (width n : Nat) : String :=
  let text := toString n
  String.ofList (List.replicate (width - text.length) '0') ++ text

/-- A year with at least four digits, and with a sign if it is not one of 0 to 9999. -/
def renderYear (year : Int) : String :=
  if 0 ≤ year ∧ year ≤ 9999 then padded 4 year.toNat
  else (if year < 0 then "-" else "+") ++ padded 4 year.natAbs

end Date

end UpdatePlanner
