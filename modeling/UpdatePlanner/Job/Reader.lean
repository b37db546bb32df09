import UpdatePlanner.Job.Basic
import UpdatePlanner.Selection.Encoding

/-!
# Reading jobs

Jobs, groups and their parts are read from values of any format.  Unknown fields are skipped; a
field that is missing has an empty value, unless the part makes no sense without it.

## Main definitions

* `GroupSettings.read`, `GroupDefinition.read`, `ConditionDefinition.read`, `Entry.read` — the
  parts of a job;
* `Job.read` — a job;
* `GroupDocument.read` — a document of groups.
-/

namespace UpdatePlanner

open Readable

variable {ν : Type} {m : Type → Type} [Fallible m] [Readable ν m]

def GroupSettings.read (v : ν) : m GroupSettings := do
  let fields ← fields
    ["patterns", "exclude-patterns", "dependency-type", GroupRules.ceilingKey] v
  let patterns ← optional fields "patterns" texts
  let excludePatterns ← optional fields "exclude-patterns" texts
  let dependencyType ← optional fields "dependency-type" text
  let highestAllowed ← optional fields GroupRules.ceilingKey text
  return ⟨patterns, excludePatterns, dependencyType, highestAllowed⟩

def GroupDefinition.read (v : ν) : m GroupDefinition := do
  let fields ← fields ["name", "rules"] v
  let name ← required fields "name" text
  let settings ← defaulted fields "rules" GroupSettings.none GroupSettings.read
  return ⟨name, settings⟩

/-- One text or a list of texts, where only what shows that it is a text counts as one. -/
def oneOrMany (v : ν) : m (List String) := do
  match ← typed v with
  | .text s => return [s]
  | d => Fallible.ofOption (texts d)

def ConditionDefinition.read (v : ν) : m ConditionDefinition := do
  let fields ← fields ["dependency-name", "versions", "update-types", "security-only"] v
  let pattern ← required fields "dependency-name" text
  let versions ← optional fields "versions" oneOrMany
  let kindNames ← optional fields "update-types" oneOrMany
  let forSecurity ← defaulted fields "security-only" false flag
  return ⟨pattern, versions, kindNames, forSecurity⟩

/-- An offered version: its text alone, or with its date. -/
def readOffered (v : ν) : m Candidate := do
  match ← typed v with
  | .text version => return ⟨version, none⟩
  | d => Fallible.ofOption (Candidate.read d)

/-- A dependency of a job with what is offered for it. -/
def Entry.read (v : ν) : m Entry := do
  let fields ← fields (Dependency.fieldNames ++ ["available-versions"]) v
  let d ← Dependency.ofFields fields
  let offered ← defaulted fields "available-versions" [] (list readOffered)
  return ⟨d, offered⟩

/-- The switches of a job; of two settings of one name the last counts. -/
def Experiments.read (v : ν) : m Experiments := do
  let settings ← (← entries v).mapM fun (name, v) => return (name, ← flag v)
  return ⟨.ofList settings⟩

def Job.read (v : ν) : m Job := do
  let fields ← fields
    ["security-updates-only", "experiments", "dependency-groups", "ignore-conditions",
      "dependencies"] v
  let securityOnly ← defaulted fields "security-updates-only" false flag
  let experiments ← defaulted fields "experiments" Experiments.none Experiments.read
  let groups ← defaulted fields "dependency-groups" [] (list GroupDefinition.read)
  let conditions ← defaulted fields "ignore-conditions" [] (list ConditionDefinition.read)
  let entries ← defaulted fields "dependencies" [] (list Entry.read)
  return ⟨securityOnly, experiments, groups, conditions, entries⟩

/-- The groups of a document with their settings. -/
def readGroups (v : ν) : m (List (String × GroupSettings)) := do
  (← entries v).mapM fun (name, v) => return (name, ← GroupSettings.read v)

/-- A document of groups; of two groups with one name the last counts, in the place of the
first. -/
def GroupDocument.read (v : ν) : m GroupDocument := do
  let fields ← fields ["groups"] v
  return ⟨.ofList (← required fields "groups" readGroups)⟩

end UpdatePlanner
