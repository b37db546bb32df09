import UpdatePlanner.Plan.Basic
import UpdatePlanner.Version.Change

/-!
# What reports count

Both kinds of reports show the same counts, which are defined here once.

## Main definitions

* `PlannedDependency.change` — the size of a planned update;
* `Plan.changeCounts` — the updates of each size;
* `Plan.managerCounts` — updates and skips of each package manager;
* `Plan.reasonCounts` — the skips with each reason;
* `Plan.sections` — the dependencies of each group, and of none.
-/

namespace UpdatePlanner

namespace PlannedDependency

/-- The size of a planned update; it is unknown without a version in use. -/
def change (d : PlannedDependency) : Change :=
  match d.decision with
  | .update dependency version _ =>
    dependency.version.elim .unknown fun old => Change.between old version
  | .skip .. => .unknown

end PlannedDependency

/-- A reason to skip, as text reports show it. -/
def SkipReason.brief : SkipReason → String
  | nothingOffered => "no versions"
  | allIgnored => "ignored"
  | nothingSuitable => "no suitable version"
  | alreadyLatest => "latest"
  | invalidRange message => "invalid ignore range: " ++ message

/-- The updates and skips of a package manager. -/
structure ManagerCount where
  manager : PackageManager
  updates : Nat
  skips : Nat
  deriving DecidableEq, Repr

/-- The dependencies that a report shows under one heading. -/
structure Section where
  title : String
  plans : List PlannedDependency
  deriving DecidableEq, Repr

namespace Section

def updates (s : Section) : List PlannedDependency :=
  s.plans.filter fun d => d.isUpdate

def skips (s : Section) : List PlannedDependency :=
  s.plans.filter fun d => !d.isUpdate

end Section

namespace Plan

/-- The sizes of changes in the order in which they are counted, with their words. -/
def changeWords : List (Change × String) :=
  [(.major, "major"), (.minor, "minor"), (.patch, "patch"), (.unknown, "other")]

/-- The number of updates of a size. -/
def changeCount (p : Plan) (c : Change) : Nat :=
  p.updates.countP fun d => d.change == c

/-- The sizes of changes that occur, with the numbers of updates. -/
def changeCounts (p : Plan) : List (Nat × Change × String) :=
  (changeWords.map fun (c, word) => (p.changeCount c, c, word)).filter fun n => n.1 > 0

/-- The updates and skips of each package manager that has dependencies. -/
def managerCounts (p : Plan) : List ManagerCount :=
  PackageManager.all.filterMap fun m =>
    let plans := p.managedBy m
    if plans.isEmpty then none
    else some ⟨m, plans.countP fun d => d.isUpdate, plans.countP fun d => !d.isUpdate⟩

/-- The reasons of the skips, as text reports show them. -/
def skipTexts (p : Plan) : List String :=
  p.dependencies.filterMap fun d => d.decision.skipReason?.map SkipReason.brief

/-- Whether a count of a reason is listed before another one: by number, then by text. -/
def countPrecedes (a b : String × Nat) : Bool :=
  ((compare b.2 a.2).then (compare a.1 b.1)).isLE

/-- The reasons that occur, each once, with the numbers of skips; the most frequent first. -/
def reasonCounts (p : Plan) : List (String × Nat) :=
  (p.skipTexts.eraseDups.map fun r => (r, p.skipTexts.count r)).mergeSort countPrecedes

/-- The section of a group: what is planned for its members. -/
def groupSection (p : Plan) (g : PlannedGroup) : Section :=
  ⟨"Group " ++ g.name ++ (if g.targetsHighest then "" else " (capped)"),
    g.members.filterMap p.find?⟩

/-- The section of the dependencies in no group. -/
def ungroupedSection (p : Plan) : Section :=
  ⟨"Ungrouped", p.ungrouped.filterMap p.find?⟩

/-- The sections of a report, one for each group and one for what is in none. -/
def sections (p : Plan) : List Section :=
  p.groups.map p.groupSection ++ [p.ungroupedSection]

end Plan

end UpdatePlanner
