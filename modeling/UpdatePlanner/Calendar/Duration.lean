import UpdatePlanner.Calendar.Instant
import UpdatePlanner.Text.Number

/-!
# Durations

A duration is a length of time: whole seconds, as many as can be held, and nanoseconds.  An instant
is moved by at most as many milliseconds as fit into 63 bits.  It can be moved back within the
calendar only; what would lead beyond the beginning of the calendar leads to the beginning.

## Main definitions

* `Duration` — a length of time;
* `Duration.shift` — a duration as what an instant can be moved by;
* `Instant.back?` — an instant moved back, if the calendar has what is reached;
* `Instant.earlier` — an instant moved back, never beyond the beginning of the calendar.
-/

namespace UpdatePlanner

open Text

/-- A length of time. -/
structure Duration where
  seconds : Nat
  /-- Nanoseconds beyond the whole seconds. -/
  nanos : Nat
  seconds_le : seconds ≤ maxNumber
  nanos_lt : nanos < Instant.nanosPerSecond
  deriving DecidableEq, Repr

namespace Duration

instance : LE Duration :=
  ⟨fun d e => d.seconds < e.seconds ∨ d.seconds = e.seconds ∧ d.nanos ≤ e.nanos⟩

instance (d e : Duration) : Decidable (d ≤ e) :=
  inferInstanceAs (Decidable (_ ∨ _))

/-- As many seconds as given, or as many as can be held. -/
def ofSeconds (n : Nat) : Duration :=
  ⟨clamp n, 0, clamp_le n, by decide⟩

/-- A number stands for that many seconds. -/
instance (n : Nat) : OfNat Duration n := ⟨ofSeconds n⟩

/-- Ages are given as numbers of seconds. -/
instance : Coe (Option Nat) (Option Duration) := ⟨Option.map ofSeconds⟩

/-- The longest duration by which an instant can be moved: all 63 bits of milliseconds set. -/
def longestShift : Duration :=
  ⟨9223372036854775, 807000000, by decide, by decide⟩

/-- The duration as what an instant can be moved by, if it is not too long for that. -/
def shift? (d : Duration) : Option Duration :=
  if d ≤ longestShift then some d else none

/-- The duration as what an instant can be moved by, or the longest such one. -/
def shift (d : Duration) : Duration :=
  d.shift?.getD longestShift

end Duration

namespace Instant

/-- The instant a duration before another one, whether the calendar has it or not.  A leap second
that is left backwards counts as the second after it. -/
def before (t : Instant) (d : Duration) : Instant :=
  if d.seconds = 0 ∧ nanosPerSecond ≤ t.nanos then
    ⟨t.seconds, t.nanos - d.nanos⟩
  else
    let start : Instant :=
      if t.nanos < nanosPerSecond then t else ⟨t.seconds + 1, t.nanos - nanosPerSecond⟩
    if d.nanos ≤ start.nanos then
      ⟨start.seconds - d.seconds, start.nanos - d.nanos⟩
    else
      -- A second is broken into nanoseconds.
      ⟨start.seconds - d.seconds - 1, start.nanos + nanosPerSecond - d.nanos⟩

/-- The instant a duration before another one, if the calendar has it. -/
def back? (t : Instant) (d : Duration) : Option Instant :=
  if (t.before d).seconds < first.seconds then none else some (t.before d)

/-- The instant an age before another one, or the beginning of the calendar if that is later. -/
def earlier (t : Instant) (age : Duration) : Instant :=
  (t.back? age.shift).getD first

end Instant

end UpdatePlanner
