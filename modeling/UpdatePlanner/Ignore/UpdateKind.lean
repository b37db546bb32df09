import UpdatePlanner.Text.Blank

/-!
# Kinds of updates

Configuration names the updates to ignore by the place of the version that they change.

## Main definitions

* `UpdateKind` — the kinds;
* `UpdateKind.id` — a kind as it is written;
* `UpdateKind.read?` — the kind that a text names.

## Main results

* `UpdateKind.read?_id` — a kind that is written is read back.
-/

namespace UpdatePlanner

/-- The place of a version that an update changes. -/
inductive UpdateKind where
  | patch
  | minor
  | major
  deriving DecidableEq, Repr

namespace UpdateKind

def shortName : UpdateKind → String
  | patch => "patch"
  | minor => "minor"
  | major => "major"

/-- A kind as configuration writes it. -/
def id (k : UpdateKind) : String :=
  "version-update:semver-" ++ k.shortName

def all : List UpdateKind := [patch, minor, major]

/-- The kind that a text names, in full or in short; white space around the name does not
count. -/
def read? (text : String) : Option UpdateKind :=
  let name := String.ofList (Text.trim text.toList)
  all.find? fun k => k.id == name || k.shortName == name

/-- The complaint about a text that names no kind. -/
def complaint (text : String) : String :=
  "unknown update type '" ++ String.ofList (Text.trim text.toList) ++ "'"

theorem read?_id (k : UpdateKind) : read? k.id = some k := by
  cases k <;> decide

end UpdateKind

end UpdatePlanner
