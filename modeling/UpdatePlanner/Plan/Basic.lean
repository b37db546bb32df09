import UpdatePlanner.Failure
import UpdatePlanner.Selection.Decision

/-!
# Plans

A plan holds a decision for every dependency of a job, and the groups that the dependencies were
assigned to.

## Main definitions

* `PlannedDependency`, `PlannedGroup`, `PlanFailure` — the parts of a plan;
* `Plan` — a plan;
* `Plan.updates`, `Plan.skips` — its decisions by kind;
* `Plan.find?` — the decision for a name.

## Main results

* `Plan.length_updates_add_length_skips` — every decision is an update or a skip.
-/

namespace UpdatePlanner

/-- What is planned for one dependency. -/
structure PlannedDependency where
  groups : List String
  ignored : List String
  decision : Decision
  deriving DecidableEq, Repr

/-- A group after assignment. -/
structure PlannedGroup where
  name : String
  /-- Whether no ceiling caps the group. -/
  targetsHighest : Bool
  members : List String
  deriving DecidableEq, Repr

/-- Why a dependency could not be planned for. -/
structure PlanFailure where
  dependency : String
  cause : PolicyFailure
  deriving DecidableEq, Repr

/-- A failure in one line. -/
def PlanFailure.render (f : PlanFailure) : String :=
  f.dependency ++ ": " ++ f.cause.message

/-- What is planned for a job. -/
structure Plan where
  securityOnly : Bool
  groups : List PlannedGroup
  ungrouped : List String
  dependencies : List PlannedDependency
  failures : List PlanFailure
  deriving DecidableEq, Repr

namespace PlannedDependency

def name (p : PlannedDependency) : String :=
  p.decision.name

def isUpdate (p : PlannedDependency) : Bool :=
  p.decision.isUpdate

end PlannedDependency

namespace Plan

def updates (p : Plan) : List PlannedDependency :=
  p.dependencies.filter fun d => d.isUpdate

def skips (p : Plan) : List PlannedDependency :=
  p.dependencies.filter fun d => !d.isUpdate

/-- The first dependency with a name. -/
def find? (p : Plan) (name : String) : Option PlannedDependency :=
  p.dependencies.find? fun d => d.name == name

/-- The dependencies of a package manager. -/
def managedBy (p : Plan) (m : PackageManager) : List PlannedDependency :=
  p.dependencies.filter fun d => d.decision.dependency.manager == m

theorem length_updates_add_length_skips (p : Plan) :
    p.updates.length + p.skips.length = p.dependencies.length := by
  simp only [updates, skips]
  induction p.dependencies with
  | nil => rfl
  | cons d ds ih =>
    cases h : d.isUpdate <;> simp [h] <;> omega

end Plan

end UpdatePlanner
