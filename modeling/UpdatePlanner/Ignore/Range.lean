import UpdatePlanner.Version.Boundary
import UpdatePlanner.Ignore.UpdateKind

/-!
# Ranges of ignored versions

To ignore a kind of update is to ignore a range of versions, computed from the version in use:

| kind  | in use `1.2.3`       |
|-------|----------------------|
| patch | `>= 1.2.3.1.a, < 1.3`|
| minor | `>= 1.3.a, < 2`      |
| major | `>= 2.a, < 3`        |

## Main definitions

* `Reach` — how far a range of major updates goes;
* `Range` — a lower end and perhaps an upper one;
* `Range.ofKind` — the range of a kind of update above a version.
-/

namespace UpdatePlanner

/-- How far a range of major updates goes. -/
inductive Reach where
  | nextLine
  | unbounded
  deriving DecidableEq, Repr

/-- The versions from a lower end on, below an upper one if there is one. -/
structure Range where
  lower : String
  upper : Option String
  deriving DecidableEq, Repr

namespace Range

open Version

/-- The range as a requirement. -/
def render (r : Range) : String :=
  ">= " ++ r.lower ++ (r.upper.elim "" (", < " ++ ·))

/-- The range that every version is in. -/
def allVersions : String := ">= 0"

/-- The versions above the given one in its minor line.  A version of one part has no patches. -/
def patch (version : String) : Option Range := do
  let depth := max (parts version).length 2
  let lower ← nextBoundary version depth .lower
  let upper ← nextBoundary version 1 .upper
  return ⟨lower, some upper⟩

/-- The later minor lines of the major line of a version. -/
def minor (version : String) : Option Range := do
  let lower ← nextBoundary version 1 .lower
  let upper ← nextBoundary version 0 .upper
  return ⟨lower, some upper⟩

/-- The later major lines, as far as the reach goes. -/
def major (version : String) (reach : Reach) : Option Range := do
  let lower ← nextBoundary version 0 .lower
  match reach with
  | .unbounded => return ⟨lower, none⟩
  | .nextLine =>
    let next ← nextBoundary version 0 .upper
    let upper ← nextBoundary next 0 .upper
    return ⟨lower, some upper⟩

/-- The range of a kind of update above a version, if the version has one. -/
def ofKind (kind : UpdateKind) (version : String) (reach : Reach) : Option Range :=
  match kind with
  | .patch => patch version
  | .minor => minor version
  | .major => major version reach

end Range

end UpdatePlanner
