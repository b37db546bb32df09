import UpdatePlanner.Group.Assignment
import UpdatePlanner.Job.Basic
import UpdatePlanner.Plan.Basic
import UpdatePlanner.Selection.Selector

/-!
# Planning a job

Conditions and groups are set up first, and a fault in one of them ends the run.  Then each
dependency is decided on by itself: a range that cannot be read fails only the dependencies it is
ignored for.

## Main definitions

* `PlanOptions` — what a run adds to its job;
* `ignoredRanges` — every range that is ignored for a dependency;
* `Job.plan?` — the plan for a job.
-/

namespace UpdatePlanner

/-- What a run adds to its job. -/
structure PlanOptions where
  /-- Whether only security updates are to be made, whatever the job says. -/
  securityOnly : Bool
  /-- How long ago a version has to be released. -/
  minAge : Option Duration
  now : Instant
  deriving DecidableEq, Repr

/-- The ranges that conditions and groups exclude for a dependency, in order: first those of the
conditions that apply to it, then those of the groups. -/
def excludedRanges (conditions : List IgnoreCondition) (groups : List DependencyGroup)
    (securityOnly : Bool) (d : Dependency) : List String :=
  (conditions.filter fun c => c.appliesTo d.name).flatMap (fun c => c.ignored d securityOnly) ++
    groups.flatMap fun g => g.ignored d

/-- The ranges that are ignored for a dependency, each once. -/
def ignoredRanges (conditions : List IgnoreCondition) (groups : List DependencyGroup)
    (securityOnly : Bool) (d : Dependency) : List String :=
  (excludedRanges conditions groups securityOnly d).eraseDups

/-- The decision for a dependency, and the failure if some range cannot be read. -/
def decide? (ranges : List String) (minAge : Option Duration) (now : Instant) (d : Dependency)
    (offered : List Candidate) : Decision × Option PolicyFailure :=
  match Selector.read? ranges minAge now with
  -- A range that cannot be read stops this dependency, but not the plan.
  | .ok selector => (selector.select d offered, none)
  | .error cause => (.skip d (.invalidRange cause.message), some cause)

namespace Job

/-- What is planned for a dependency of a job, once the groups are assigned. -/
def planFor (job : Job) (options : PlanOptions) (conditions : List IgnoreCondition)
    (assignment : Assignment) (d : Dependency) : PlannedDependency × Option PlanFailure :=
  let groups := assignment.groupsOf d
  let securityOnly := job.securityOnly || options.securityOnly
  let ranges := ignoredRanges conditions groups securityOnly d
  let (decision, cause) := decide? ranges options.minAge options.now d (job.offeredFor d.name)
  (⟨groups.map DependencyGroup.name, ranges, decision⟩, cause.map (PlanFailure.mk d.name))

/-- The plan for a job whose conditions and groups are set up. -/
def planWith (job : Job) (options : PlanOptions) (conditions : List IgnoreCondition)
    (assignment : Assignment) : Plan :=
  let planned := job.dependencies.map (job.planFor options conditions assignment)
  { securityOnly := job.securityOnly || options.securityOnly
    groups := assignment.groups.map fun g =>
      ⟨g.name, g.targetsHighest, g.members.map Dependency.name⟩
    ungrouped := assignment.ungrouped.map Dependency.name
    dependencies := planned.map Prod.fst
    failures := planned.filterMap Prod.snd }

/-- The plan for a job.  A fault in a condition is reported before one in a group. -/
def plan? (job : Job) (options : PlanOptions) : Except PolicyFailure Plan := do
  let conditions ← job.conditions?
  let groups ← job.groups?
  let assignment ← (Assignment.start groups).assign job.dependencies
  return job.planWith options conditions assignment

end Job

end UpdatePlanner
