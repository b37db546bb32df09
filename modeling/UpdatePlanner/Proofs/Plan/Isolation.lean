import Mathlib.Data.List.Basic
import UpdatePlanner.Proofs.Ignore.Configured
import UpdatePlanner.Proofs.Plan.ByRules

/-!
# Dependencies do not affect each other

A run walks over all dependencies, fills the groups on its way and looks the offered versions up by
name. Still, what it plans for the dependencies of one name hangs on the entries of that name and
the conditions that cover it alone: other entries and conditions, in whatever order and however
faulty their ranges are, change nothing.

## Main definitions

* `ConditionDefinition.covers c name`: the pattern of a condition matches a name
* `Job.AgreeOn name job options job' options'`: two runs have the same to say about a name

## Main results

* `Job.AgreeOn.planFor_eq`: two runs that agree on a name plan the same for its dependencies
* `Job.filter_plan_eq_of_agreeOn`: the parts of two plans under the name are the same
-/

namespace UpdatePlanner

open Assignment

/-! ## Conditions and names -/

namespace ConditionDefinition

/-- Whether the pattern of a condition matches a name. -/
def covers (c : ConditionDefinition) (name : String) : Bool :=
  match NamePattern.read? c.pattern with
  | .ok pattern => pattern.accepts name
  | .error _ => false

theorem name_withPattern (c : ConditionDefinition) (pattern : NamePattern) :
    (c.withPattern pattern).name = pattern := by
  rw [withPattern_eq]

/-- A condition that was read applies to the names that its pattern matches. -/
theorem covers_eq_of_condition? {c : ConditionDefinition} {condition : IgnoreCondition}
    (h : c.condition? = .ok condition) (name : String) :
    c.covers name = condition.appliesTo name := by
  unfold condition? at h
  -- The pattern is all that can fail, so a condition that was read has one.
  cases hpattern : NamePattern.read? c.pattern with
  | error fault => simp [hpattern, Except.map] at h
  | ok pattern =>
    obtain rfl : c.withPattern pattern = condition := by simpa [hpattern, Except.map] using h
    simp [covers, hpattern, IgnoreCondition.appliesTo, name_withPattern]

end ConditionDefinition

/-! ## Two runs -/

namespace Job

variable {name : String} {job job' : Job} {options options' : PlanOptions}

/-- Two runs have the same to say about a name: the same groups, switches, age and time, and of the
entries and conditions the same ones for the name, in the same order. -/
structure AgreeOn (name : String) (job : Job) (options : PlanOptions) (job' : Job)
    (options' : PlanOptions) : Prop where
  groups : job.groups = job'.groups
  rules : job.experimentalRules = job'.experimentalRules
  security : (job.securityOnly || options.securityOnly) =
    (job'.securityOnly || options'.securityOnly)
  minAge : options.minAge = options'.minAge
  now : options.now = options'.now
  entries : (job.entries.filter fun e => e.dependency.name == name) =
    job'.entries.filter fun e => e.dependency.name == name
  conditions : (job.conditions.filter fun c => c.covers name) =
    job'.conditions.filter fun c => c.covers name

/-- The dependencies of a name are those of its entries. -/
theorem filter_dependencies (job : Job) (name : String) :
    (job.dependencies.filter fun d => d.name == name) =
      (job.entries.filter fun e => e.dependency.name == name).map Entry.dependency :=
  List.filter_map

/-- What is offered under a name is what the first of its entries offers. -/
theorem offeredFor_eq (job : Job) (name : String) :
    job.offeredFor name =
      (((job.entries.filter fun e => e.dependency.name == name).head?).map Entry.offered).getD [] := by
  rw [List.head?_filter]
  rfl

/-- The conditions that apply to a name are read from the definitions that cover it. -/
theorem filter_conditions? {conditions : List IgnoreCondition}
    (h : job.conditions? = .ok conditions) (name : String) :
    (job.conditions.filter fun c => c.covers name).mapM ConditionDefinition.condition? =
      .ok (conditions.filter fun c => c.appliesTo name) :=
  mapM_filter h fun _ _ hread => ConditionDefinition.covers_eq_of_condition? hread name

namespace AgreeOn

variable (h : AgreeOn name job options job' options')
include h

theorem filter_dependencies_eq :
    (job.dependencies.filter fun d => d.name == name) =
      job'.dependencies.filter fun d => d.name == name := by
  rw [filter_dependencies, filter_dependencies, h.entries]

theorem offeredFor_eq : job.offeredFor name = job'.offeredFor name := by
  rw [Job.offeredFor_eq, Job.offeredFor_eq, h.entries]

theorem groups?_eq : job.groups? = job'.groups? := by
  rw [groups?, groups?, h.groups, h.rules]

theorem filter_conditions_eq {conditions conditions' : List IgnoreCondition}
    (hconditions : job.conditions? = .ok conditions)
    (hconditions' : job'.conditions? = .ok conditions') :
    (conditions.filter fun c => c.appliesTo name) =
      conditions'.filter fun c => c.appliesTo name := by
  have hread := filter_conditions? hconditions name
  rw [h.conditions] at hread
  exact Except.ok.inj (hread.symm.trans (filter_conditions? hconditions' name))

/-- A group admits the same of the name in both runs. -/
theorem admitsNamed_eq (g : DependencyGroup) :
    g.admitsNamed job.dependencies name = g.admitsNamed job'.dependencies name := by
  rw [← DependencyGroup.admitsNamed_filter, h.filter_dependencies_eq,
    DependencyGroup.admitsNamed_filter]

/-- **Two runs that agree on a name plan the same for each of its dependencies.** -/
theorem planFor_eq {conditions conditions' : List IgnoreCondition} {groups : List DependencyGroup}
    (hempty : ∀ g ∈ groups, g.members = [])
    (hconditions : (conditions.filter fun c => c.appliesTo name) =
      conditions'.filter fun c => c.appliesTo name)
    {d : Dependency} (hd : d.name = name) :
    job.planFor options conditions (finished groups job.dependencies) d =
      job'.planFor options' conditions' (finished groups job'.dependencies) d := by
  subst hd
  -- A run enters in the groups that are joined, the conditions that apply, and what is offered.
  have hjoined : (groups.filter fun g => g.admitsNamed job.dependencies d.name) =
      groups.filter fun g => g.admitsNamed job'.dependencies d.name :=
    List.filter_congr fun g _ => h.admitsNamed_eq g
  rw [planFor_finished hempty, planFor_finished hempty]
  simp only [ignoredRanges, excludedRanges, hconditions, hjoined, h.security, h.minAge, h.now,
    h.offeredFor_eq]

end AgreeOn

/-! ## Plans under a name -/

/-- What is planned under a name is what is planned for the dependencies of the name. -/
theorem filter_dependencies_planWith (conditions : List IgnoreCondition) (a : Assignment)
    (name : String) :
    ((job.planWith options conditions a).dependencies.filter fun p => p.name == name) =
      ((job.dependencies.filter fun d => d.name == name).map
        (job.planFor options conditions a)).map Prod.fst := by
  simp only [planWith, List.map_map, List.filter_map]
  congr 1
  apply List.filter_congr
  intro d _
  simp only [Function.comp_apply, name_planFor]

/-- What has failed under a name has failed for a dependency of the name. -/
theorem filter_failures_planWith (conditions : List IgnoreCondition) (a : Assignment)
    (name : String) :
    ((job.planWith options conditions a).failures.filter fun f => f.dependency == name) =
      ((job.dependencies.filter fun d => d.name == name).map
        (job.planFor options conditions a)).filterMap Prod.snd := by
  simp only [planWith, List.filterMap_map, List.filter_filterMap, List.filterMap_filter]
  apply List.filterMap_congr
  intro d _
  -- The failure of a dependency carries its name.
  rw [Function.comp_apply, failure_planFor]
  cases (decide? (job.planFor options conditions a d).1.ignored options.minAge options.now d
    (job.offeredFor d.name)).2 with
  | none => simp
  | some cause => simp [Option.filter]

variable {plan plan' : Plan}

/-- **Dependencies do not affect each other**: two runs that have the same to say about a name have
the same entries under it and the same failures, whatever else the jobs contain. -/
theorem filter_plan_eq_of_agreeOn (h : AgreeOn name job options job' options')
    (hrun : job.plan? options = .ok plan) (hrun' : job'.plan? options' = .ok plan') :
    (plan.dependencies.filter fun p => p.name == name) =
        (plan'.dependencies.filter fun p => p.name == name) ∧
      (plan.failures.filter fun f => f.dependency == name) =
        plan'.failures.filter fun f => f.dependency == name := by
  obtain ⟨conditions, groups, hconditions, hgroups, rfl⟩ := plan?_eq_ok_iff.mp hrun
  obtain ⟨conditions', groups', hconditions', hgroups', rfl⟩ := plan?_eq_ok_iff.mp hrun'
  -- Both assignments start from the same groups, though they place other dependencies.
  obtain rfl : groups = groups' :=
    Except.ok.inj (hgroups.symm.trans (h.groups?_eq.trans hgroups'))
  have hplanned : (job.dependencies.filter fun d => d.name == name).map
      (job.planFor options conditions (finished groups job.dependencies)) =
        (job'.dependencies.filter fun d => d.name == name).map
          (job'.planFor options' conditions' (finished groups job'.dependencies)) := by
    rw [h.filter_dependencies_eq]
    apply List.map_congr_left
    intro d hd
    have hname : d.name = name := beq_iff_eq.mp (List.mem_filter.mp hd).2
    exact h.planFor_eq (members_of_groups? hgroups)
      (h.filter_conditions_eq hconditions hconditions') hname
  rw [filter_dependencies_planWith, filter_dependencies_planWith, filter_failures_planWith,
    filter_failures_planWith, hplanned]
  exact ⟨rfl, rfl⟩

/-- A job with two dependencies, for one of which there is a range that cannot be read. -/
def crowdedJob : Job where
  securityOnly := false
  experiments := .none
  groups := [⟨"web", ⟨some ["ra*"], none, none, none⟩⟩]
  conditions := [⟨"rack", some [">> 1"], none, false⟩, ⟨"rails", none, some ["major"], false⟩]
  entries := [⟨⟨"rack", some "2.0", .bundler, []⟩, [⟨"3.0", none⟩]⟩,
    ⟨⟨"rails", some "1.2.3", .bundler, []⟩, [⟨"1.3.0", none⟩, ⟨"2.0.0", none⟩]⟩]

/-- The job with the other dependency alone. -/
def quietJob : Job :=
  { crowdedJob with
    conditions := [⟨"rails", none, some ["major"], false⟩]
    entries := [⟨⟨"rails", some "1.2.3", .bundler, []⟩, [⟨"1.3.0", none⟩, ⟨"2.0.0", none⟩]⟩] }

/-- What is planned for the dependency that both jobs have. -/
def railsEntry : PlannedDependency :=
  ⟨["web"], [">= 2.a, < 3"], .update ⟨"rails", some "1.2.3", .bundler, []⟩ "1.3.0" none⟩

/-- The failure of the other dependency. -/
def rackFailure : PolicyFailure :=
  .invalidRequirement ">> 1" "cannot parse constraint '>> 1'"

/-- The plan for the first job. -/
def crowdedPlan : Plan where
  securityOnly := false
  groups := [⟨"web", true, ["rack", "rails"]⟩]
  ungrouped := []
  dependencies := [⟨["web"], [">> 1"],
    .skip ⟨"rack", some "2.0", .bundler, []⟩ (.invalidRange rackFailure.message)⟩, railsEntry]
  failures := [⟨"rack", rackFailure⟩]

/-- The plan for the second job. -/
def quietPlan : Plan :=
  ⟨false, [⟨"web", true, ["rails"]⟩], [], [railsEntry], []⟩

theorem filter_plan_eq_of_agreeOn_crowdedJob :
    AgreeOn "rails" crowdedJob ⟨false, none, ⟨0, 0⟩⟩ quietJob ⟨false, none, ⟨0, 0⟩⟩ ∧
      crowdedJob.plan? ⟨false, none, ⟨0, 0⟩⟩ = .ok crowdedPlan ∧
      quietJob.plan? ⟨false, none, ⟨0, 0⟩⟩ = .ok quietPlan ∧
      (crowdedPlan.dependencies.filter fun p => p.name == "rails") =
        (quietPlan.dependencies.filter fun p => p.name == "rails") ∧
      (crowdedPlan.failures.filter fun f => f.dependency == "rails") =
        quietPlan.failures.filter fun f => f.dependency == "rails" := by
  have hagree : AgreeOn "rails" crowdedJob ⟨false, none, ⟨0, 0⟩⟩ quietJob
      ⟨false, none, ⟨0, 0⟩⟩ :=
    { groups := rfl, rules := rfl, security := rfl, minAge := rfl, now := rfl
      entries := by decide
      conditions := by with_unfolding_all decide }
  have hrun : crowdedJob.plan? ⟨false, none, ⟨0, 0⟩⟩ = .ok crowdedPlan := by
    with_unfolding_all decide
  have hrun' : quietJob.plan? ⟨false, none, ⟨0, 0⟩⟩ = .ok quietPlan := by
    with_unfolding_all decide
  exact ⟨hagree, hrun, hrun', filter_plan_eq_of_agreeOn hagree hrun hrun'⟩

end Job

end UpdatePlanner
