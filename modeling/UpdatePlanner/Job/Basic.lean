import UpdatePlanner.Group.Document
import UpdatePlanner.Job.Experiments
import UpdatePlanner.Selection.Candidate

/-!
# Jobs

A job is what one run works on: dependencies with the versions offered for them, groups, ignore
conditions and switches.

## Main definitions

* `Job` — a job as configured;
* `Job.conditions?` — its ignore conditions;
* `Job.groups?` — its groups.
-/

namespace UpdatePlanner

/-- A group as configured. -/
structure GroupDefinition where
  name : String
  settings : GroupSettings
  deriving DecidableEq, Repr

/-- An ignore condition as configured. -/
structure ConditionDefinition where
  pattern : String
  versions : Option (List String)
  kindNames : Option (List String)
  forSecurity : Bool
  deriving DecidableEq, Repr

namespace ConditionDefinition

/-- A list that is there and not empty. -/
def nonempty? (texts : Option (List String)) : Option (List String) :=
  texts.filter fun ts => !ts.isEmpty

/-- The condition that is defined for the names of a pattern.  Empty lists are as good as none
given. -/
def withPattern (c : ConditionDefinition) (name : NamePattern) : IgnoreCondition :=
  let blanket := (IgnoreCondition.blanket name).withSecurity c.forSecurity
  let ranged := (nonempty? c.versions).elim blanket blanket.withVersions
  (nonempty? c.kindNames).elim ranged ranged.withKindNames

/-- The condition that is defined, unless its pattern is faulty. -/
def condition? (c : ConditionDefinition) : Except PolicyFailure IgnoreCondition :=
  (NamePattern.read? c.pattern).map c.withPattern

end ConditionDefinition

/-- A dependency, and the versions offered for it. -/
structure Entry where
  dependency : Dependency
  offered : List Candidate
  deriving DecidableEq, Repr

/-- What one run works on. -/
structure Job where
  securityOnly : Bool
  experiments : Experiments
  groups : List GroupDefinition
  conditions : List ConditionDefinition
  entries : List Entry
  deriving DecidableEq, Repr

namespace Job

/-- The job without anything to do. -/
def empty : Job := ⟨false, .none, [], [], []⟩

/-- The ignore conditions; the first faulty one is reported. -/
def conditions? (job : Job) : Except PolicyFailure (List IgnoreCondition) :=
  job.conditions.mapM ConditionDefinition.condition?

/-- Whether ceilings of groups count. -/
def experimentalRules (job : Job) : Bool :=
  job.experiments.isEnabled Experiments.groupRules

/-- The groups; the first faulty one is reported. -/
def groups? (job : Job) : Except PolicyFailure (List DependencyGroup) :=
  job.groups.mapM fun g => DependencyGroup.read? g.name g.settings job.experimentalRules

def dependencies (job : Job) : List Dependency :=
  job.entries.map Entry.dependency

/-- The versions offered under a name.  Where two entries have the name, the first one counts. -/
def offeredFor (job : Job) (name : String) : List Candidate :=
  ((job.entries.find? fun e => e.dependency.name == name).map Entry.offered).getD []

/-- The job with a switch set. -/
def withExperiment (job : Job) (name : String) (value : Bool) : Job :=
  { job with experiments := job.experiments.register name value }

end Job

end UpdatePlanner
