import UpdatePlanner.Calendar.Date

/-!
# Instants

An instant is a whole number of seconds since the beginning of 1970 in UTC and a fraction in
nanoseconds.  In a leap second the fraction exceeds one second, so instants are ordered by
seconds and then by fraction.  The calendar ends in the years -262143 and 262142.

## Main definitions

* `Instant` — a point in time;
* `Instant.inCalendar` — whether the calendar holds an instant.
-/

namespace UpdatePlanner

/-- A point in time. -/
structure Instant where
  /-- Seconds since the beginning of 1970, without leap seconds. -/
  seconds : Int
  /-- Nanoseconds; a second or more of them in a leap second. -/
  nanos : Nat
  deriving DecidableEq, Repr

namespace Instant

instance : Ord Instant where
  compare s t := (compare s.seconds t.seconds).then (compare s.nanos t.nanos)

instance : LE Instant := ⟨fun s t => (compare s t).isLE = true⟩

instance (s t : Instant) : Decidable (s ≤ t) :=
  inferInstanceAs (Decidable ((compare s t).isLE = true))

def nanosPerSecond : Nat := 1000000000

def secondsPerDay : Int := 86400

def first : Instant := ⟨Date.days ⟨-262143, 1, 1⟩ * secondsPerDay, 0⟩

/-- The last second of the calendar. -/
def lastSecond : Int := (Date.days ⟨262142, 12, 31⟩ + 1) * secondsPerDay - 1

/-- Whether the calendar holds the instant. -/
def inCalendar (t : Instant) : Bool :=
  decide (first.seconds ≤ t.seconds ∧ t.seconds ≤ lastSecond)

def date (t : Instant) : Date :=
  Date.ofDays (t.seconds / secondsPerDay)

def secondOfDay (t : Instant) : Nat :=
  (t.seconds % secondsPerDay).toNat

/-- The day and the minute of an instant, as reports show them. -/
def renderMinute (t : Instant) : String :=
  let d := t.date
  Date.renderYear d.year ++ "/" ++ Date.padded 2 d.month ++ "/" ++ Date.padded 2 d.day ++ " " ++
    Date.padded 2 (t.secondOfDay / 3600) ++ ":" ++ Date.padded 2 (t.secondOfDay / 60 % 60)

end Instant

end UpdatePlanner
