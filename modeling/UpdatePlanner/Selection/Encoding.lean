import UpdatePlanner.Calendar.Timestamp
import UpdatePlanner.Data.Readable
import UpdatePlanner.Selection.Candidate
import UpdatePlanner.Selection.Decision

/-!
# Dependencies, candidates and decisions as data

## Main definitions

* `Dependency.toJson`, `Candidate.toJson`, `Decision.toJson` — the data of a value;
* `Dependency.read`, `Candidate.read`, `Decision.read?` — the value that data denote.

What is absent or empty is left out of the data and is absent or empty when they are read.
-/

namespace UpdatePlanner

open Readable

/-- A field that is left out where its value is absent. -/
def presentField (name : String) : Option Json → List (String × Json)
  | some v => [(name, v)]
  | none => []

namespace Dependency

def toJson (d : Dependency) : Json :=
  .object <|
    [("name", .string d.name)] ++ presentField "version" (d.version.map .string) ++
      [("package-manager", .string d.manager.id)] ++
      presentField "groups" (if d.labels.isEmpty then none else some (.ofTexts d.labels))

variable {ν : Type} {m : Type → Type} [Fallible m] [Readable ν m]

/-- The names of the fields of a dependency. -/
def fieldNames : List String := ["name", "version", "package-manager", "groups"]

/-- The package manager with the identifier that is a word of the data. -/
def readManager (v : ν) : m PackageManager := do
  Fallible.ofOption (PackageManager.ofId? (← word v))

/-- The dependency with the given fields. -/
def ofFields (fields : List (String × ν)) : m Dependency := do
  let name ← required fields "name" text
  let version ← optional fields "version" text
  let manager ← required fields "package-manager" readManager
  let labels ← defaulted fields "groups" [] texts
  return ⟨name, version, manager, labels⟩

def read (v : ν) : m Dependency := do
  ofFields (← fields fieldNames v)

end Dependency

variable {ν : Type} {m : Type → Type} [Fallible m] [Readable ν m]

/-- The instant that a timestamp in data denotes. -/
def readInstant (v : ν) : m Instant := do
  Fallible.ofOption (Instant.read? (← text v))

namespace Candidate

def toJson (c : Candidate) : Json :=
  .object <|
    [("version", .string c.version)] ++
      presentField "released-at" (c.releasedAt.map fun t => .string t.render)

def read (v : ν) : m Candidate := do
  let fields ← fields ["version", "released-at"] v
  let version ← required fields "version" text
  let releasedAt ← optional fields "released-at" readInstant
  return ⟨version, releasedAt⟩

end Candidate

namespace SkipReason

/-- The reasons without a message, with the words for them. -/
def words : List (SkipReason × String) :=
  [(nothingOffered, "no_versions_available"), (allIgnored, "all_ignored"),
    (nothingSuitable, "no_suitable_version"), (alreadyLatest, "already_latest")]

/-- The word for the reason whose message is data of its own. -/
def invalidRangeWord : String := "invalid_ignore_range"

def word : SkipReason → String
  | nothingOffered => "no_versions_available"
  | allIgnored => "all_ignored"
  | nothingSuitable => "no_suitable_version"
  | alreadyLatest => "already_latest"
  | invalidRange _ => invalidRangeWord

def toJson : SkipReason → Json
  | invalidRange message => .object [(invalidRangeWord, .string message)]
  | reason => .string reason.word

/-- The reason without a message that a word denotes. -/
def ofWord? (word : String) : Option SkipReason :=
  (words.find? fun w => w.2 == word).map Prod.fst

/-- The reason that a datum denotes. -/
def read? : Datum → Option SkipReason
  | .text word => ofWord? word
  | .mapping [(.text word, v)] =>
    if word = invalidRangeWord then (text v).map invalidRange
    else
      match v with
      | .null => ofWord? word
      | .mapping [] => ofWord? word
      | _ => none
  | _ => none

end SkipReason

namespace Decision

/-- The data of a decision: a word for its kind, and its fields. -/
def toJson : Decision → Json
  | update d version releasedAt =>
    .object <|
      [("type", .string "update"), ("dependency", d.toJson), ("new_version", .string version)] ++
        presentField "released_at" (releasedAt.map fun t => .string t.render)
  | skip d reason =>
    .object [("type", .string "skip"), ("dependency", d.toJson), ("reason", reason.toJson)]

/-- The update with the given fields. -/
def readUpdate? (v : Datum) : Option Decision := do
  let fields ← fields ["dependency", "new_version", "released_at"] v
  let d ← required fields "dependency" Dependency.read
  let version ← required fields "new_version" text
  let releasedAt ← optional fields "released_at" readInstant
  return .update d version releasedAt

/-- The skip with the given fields. -/
def readSkip? (v : Datum) : Option Decision := do
  let fields ← fields ["dependency", "reason"] v
  let d ← required fields "dependency" Dependency.read
  let reason ← required fields "reason" SkipReason.read?
  return .skip d reason

/-- The kind of a decision and its other data.  A list has the kind in front. -/
def tagged? : Json → Option (Json × Datum)
  | .object fields => do
    let kind ← Json.lookup "type" fields
    return (kind, .ofJson (.object (fields.filter fun f => f.1 != "type")))
  | .array (kind :: items) => some (kind, .ofJson (.array items))
  | _ => none

/-- The decision that data denote.  What there is to read beside the kind depends on it, so it is
a datum until the kind is known. -/
def read? (v : Json) : Option Decision := do
  let (kind, v) ← tagged? v
  match kind with
  | .string "update" => readUpdate? v
  | .string "skip" => readSkip? v
  | _ => none

end Decision

end UpdatePlanner
