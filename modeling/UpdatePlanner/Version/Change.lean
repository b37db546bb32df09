import UpdatePlanner.Version.Basic

/-!
# The size of a version change

A report labels each update by the first place at which the two versions differ.

## Main definitions

* `Change` — the sizes of a change;
* `Change.between` — the size of the change from one version text to another.
-/

namespace UpdatePlanner

/-- How large the step from one version to another is. -/
inductive Change where
  | major
  | minor
  | patch
  /-- The versions cannot be compared at their first place. -/
  | unknown
  deriving DecidableEq, Repr

namespace Change

/-- The number at a place of a version, zero beyond its end; a word is no number. -/
def numberAt (v : Version) (place : Nat) : Option Nat :=
  match v.segments[place]? with
  | some (.number n) => some n
  | some (.word _) => none
  | none => some 0

/-- The size of the change between two version texts. -/
def between (old new : String) : Change :=
  let v := Version.read old
  let w := Version.read new
  match numberAt v 0, numberAt w 0 with
  | some m, some n =>
    if m ≠ n then .major
    else if numberAt v 1 ≠ numberAt w 1 then .minor
    else .patch
  | _, _ => .unknown

/-- The word for a change in reports. -/
def label : Change → String
  | major => "major"
  | minor => "minor"
  | patch => "patch"
  | unknown => "?"

end Change

end UpdatePlanner
