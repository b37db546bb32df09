import UpdatePlanner.Failure
import UpdatePlanner.Text.Blank
import UpdatePlanner.Text.Number

/-!
# Ages

How long ago a version has to be released is written as a number and a unit: `d` for days, `w`
for weeks, `m` for months of thirty days.  An age is held in seconds; one that is too long
becomes the longest.

## Main definitions

* `Age.daysPerUnit` — the length of a unit;
* `Age.read?` — the age in seconds that a text denotes.
-/

namespace UpdatePlanner.Age

open Text

/-- The days in a unit of age. -/
def daysPerUnit (unit : Char) : Option Nat :=
  if unit = 'd' then some 1
  else if unit = 'w' then some 7
  else if unit = 'm' then some 30
  else none

def secondsPerDay : Nat := 24 * 60 * 60

/-- A number in front of a unit; a plus sign may precede it. -/
def count? (cs : List Char) : Option Nat :=
  match cs with
  | '+' :: cs => number? cs
  | cs => number? cs

/-- The age in seconds that a text denotes. -/
def seconds? (cs : List Char) : Option Nat := do
  let trimmed := trim cs
  let unit ← trimmed.getLast?
  let days ← daysPerUnit unit
  let n ← count? trimmed.dropLast
  return clamp (clamp (n * days) * secondsPerDay)

/-- The age in seconds that a text denotes, or the failure to report. -/
def read? (text : String) : Except ConfigFailure Nat :=
  match seconds? text.toList with
  | some n => .ok n
  | none => .error (.invalidDuration text)

end UpdatePlanner.Age
