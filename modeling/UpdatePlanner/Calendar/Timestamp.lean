import UpdatePlanner.Calendar.Instant
import UpdatePlanner.Text.Blank
import UpdatePlanner.Text.Number

/-!
# Timestamps

The text form of an instant is that of internet timestamps: a date, `T`, a time of day and a zone.
It is written in UTC, with as many groups of three fraction digits as are needed.  Reading is
lenient: a space or a small `t` may stand for the `T`, fields may have fewer digits, white space
may stand in front of a field, years may have a sign, and any zone is understood.

## Main definitions

* `Instant.render` — an instant as a timestamp;
* `Instant.read?` — the instant that a timestamp denotes.
-/

namespace UpdatePlanner.Instant

open Text

/-- The fraction of a second in the fewest groups of three digits, with its point. -/
def renderFraction (nanos : Nat) : String :=
  if nanos = 0 then ""
  else if nanos % 1000000 = 0 then "." ++ Date.padded 3 (nanos / 1000000)
  else if nanos % 1000 = 0 then "." ++ Date.padded 6 (nanos / 1000)
  else "." ++ Date.padded 9 nanos

/-- An instant as a timestamp in UTC. -/
def render (t : Instant) : String :=
  let d := t.date
  let second := t.secondOfDay % 60 + t.nanos / nanosPerSecond
  Date.renderYear d.year ++ "-" ++ Date.padded 2 d.month ++ "-" ++ Date.padded 2 d.day ++ "T" ++
    Date.padded 2 (t.secondOfDay / 3600) ++ ":" ++ Date.padded 2 (t.secondOfDay / 60 % 60) ++
    ":" ++ Date.padded 2 second ++ renderFraction (t.nanos % nanosPerSecond) ++ "Z"

/-- A step of reading: a value and the text behind it. -/
abbrev Step (α : Type) := List Char → Option (α × List Char)

/-- A number of at most `width` digits, after white space. -/
def field (width : Nat) : Step Nat := fun cs =>
  let cs := trimLeft cs
  let run := (cs.take width).takeWhile Char.isDigit
  if run.isEmpty then none else some (digitsValue run, cs.drop run.length)

/-- A year: four digits, or any number of them behind a sign. -/
def yearField : Step Int := fun cs =>
  match trimLeft cs with
  | '-' :: cs => (unbounded cs).map fun (n, cs) => (-(n : Int), cs)
  | '+' :: cs => (unbounded cs).map fun (n, cs) => ((n : Int), cs)
  | cs => (field 4 cs).map fun (n, cs) => ((n : Int), cs)
where
  /-- All the digits at the beginning of a text. -/
  unbounded : Step Nat := fun cs =>
    let run := cs.takeWhile Char.isDigit
    if run.isEmpty then none else some (digitsValue run, cs.drop run.length)

/-- A given character, after white space. -/
def mark (c : Char) : Step Unit := fun cs =>
  match trimLeft cs with
  | d :: cs => if d = c then some ((), cs) else none
  | [] => none

/-- The character between date and time. -/
def betweenDateAndTime : Step Unit
  | c :: cs => if c = 'T' || c = 't' || c = ' ' then some ((), cs) else none
  | [] => none

/-- A fraction of a second in nanoseconds, if there is one; digits behind the ninth do not
count. -/
def fraction : Step Nat
  | '.' :: cs =>
    let run := cs.takeWhile Char.isDigit
    let kept := run.take 9
    if run.isEmpty then none
    else some (digitsValue kept * Nat.pow 10 (9 - kept.length), cs.drop run.length)
  | cs => some (0, cs)

def twoDigits : Step Nat
  | c :: d :: cs => if c.isDigit && d.isDigit then some (digitsValue [c, d], cs) else none
  | _ => none

/-- A zone as seconds east of UTC. -/
def zone : Step Int := fun cs =>
  match cs with
  | 'Z' :: cs => some (0, cs)
  | 'z' :: cs => some (0, cs)
  | a :: b :: c :: rest =>
    if a.toUpper = 'U' && b.toUpper = 'T' && c.toUpper = 'C' then some (0, rest)
    else if a = '+' then offset (b :: c :: rest)
    else if a = '-' || a = '−' then (offset (b :: c :: rest)).map fun (s, cs) => (-s, cs)
    else none
  | _ => none
where
  /-- Hours and minutes; a colon and white space may stand between them. -/
  offset : Step Int := fun cs => do
    let (hours, cs) ← twoDigits cs
    let (minutes, cs) ← twoDigits (cs.dropWhile fun c => c = ':' || isBlank c)
    if minutes < 60 then some (((hours * 3600 + minutes * 60 : Nat) : Int), cs) else none

/-- The instant with the given fields, if they exist and the calendar holds them.  Second 60 is
a leap second. -/
def ofFields (d : Date) (hour minute second nanos : Nat) (offset : Int) : Option Instant :=
  let leap := second = 60
  let ofDay : Nat := hour * 3600 + minute * 60 + (if leap then 59 else second)
  let fraction := nanos + (if leap then nanosPerSecond else 0)
  -- Both the instant and what a clock in its zone shows have to be in the calendar.
  let there : Instant := ⟨d.days * secondsPerDay + ofDay, fraction⟩
  let t : Instant := ⟨there.seconds - offset, fraction⟩
  if d.isValid && decide (hour < 24 ∧ minute < 60 ∧ second ≤ 60 ∧ offset.natAbs < 86400) &&
      there.inCalendar && t.inCalendar then
    some t
  else
    none

/-- The instant that a timestamp denotes. -/
def read? (text : String) : Option Instant := do
  let (year, cs) ← yearField text.toList
  let ((), cs) ← mark '-' cs
  let (month, cs) ← field 2 cs
  let ((), cs) ← mark '-' cs
  let (day, cs) ← field 2 cs
  let ((), cs) ← betweenDateAndTime cs
  let (hour, cs) ← field 2 cs
  let ((), cs) ← mark ':' cs
  let (minute, cs) ← field 2 cs
  let ((), cs) ← mark ':' cs
  let (second, cs) ← field 2 cs
  let (nanos, cs) ← fraction cs
  let (offset, cs) ← zone (trimLeft cs)
  if (trimLeft cs).isEmpty then ofFields ⟨year, month, day⟩ hour minute second nanos offset
  else none

end UpdatePlanner.Instant
