import UpdatePlanner.Proofs.Plan.Run

/-!
# What plans keep away

A range reaches the selection of a version through the conditions or the groups of a job. Whatever
the way, a version that is proposed is outside of it.

## Main results

* `Job.excludes_of_condition`, `Job.excludes_of_group`: a range excludes the proposed version, if a
  condition yields it for the dependency or the ceiling of a group that it has joined
* `Job.excludes_of_update`: so does every range of the job
-/

namespace UpdatePlanner

namespace Job

open Assignment

section Update

variable {job : Job} {options : PlanOptions} {plan : Plan} {p : PlannedDependency}
  {d : Dependency} {w : String} {t : Option Instant}
  (hrun : job.plan? options = .ok plan) (hp : p ∈ plan.dependencies)
  (hupdate : p.decision = .update d w t)
include hrun hp hupdate

/-- The conditions of the job can be read. For a dependency to which one of them applies, each of
its ranges excludes the proposed version. -/
theorem excludes_of_condition {definition : ConditionDefinition}
    (hdefinition : definition ∈ job.conditions) :
    ∃ c, definition.condition? = .ok c ∧ (c.appliesTo d.name = true →
      ∀ range ∈ c.ignored d (job.securityOnly || options.securityOnly), Excludes range w) := by
  obtain ⟨conditions, groups, hconditions, -, -, hentered⟩ := exists_entered hrun hp
  obtain ⟨c, hc, hread⟩ := exists_mem_of_mapM hconditions hdefinition
  refine ⟨c, hread, ?_⟩
  intro happlies range hrange
  apply hentered.excludes hupdate
  apply hentered.mem_ignored_of_condition hc
  · rwa [PlannedDependency.name, Decision.name, hupdate]
  · rwa [hupdate]

/-- The groups of the job can be read, and are those of the plan. For a dependency that has joined
one of them, each range of its ceiling excludes the proposed version. -/
theorem excludes_of_group {i : Nat} {definition : GroupDefinition}
    (hdefinition : job.groups[i]? = some definition) :
    ∃ g group, DependencyGroup.read? definition.name definition.settings
        job.experimentalRules = .ok g ∧ plan.groups[i]? = some group ∧
      (d.name ∈ group.members → ∀ range ∈ g.ignored d, Excludes range w) := by
  obtain ⟨conditions, groups, -, hgroups, hplan, hentered⟩ := exists_entered hrun hp
  obtain ⟨g, hg, hread⟩ := exists_getElem?_of_mapM hgroups hdefinition
  refine ⟨g, _, hread, by rw [hplan, List.getElem?_map, List.getElem?_map, hg]; rfl, ?_⟩
  intro hmember range hrange
  apply hentered.excludes hupdate
  apply hentered.mem_ignored_of_group (List.mem_of_getElem? hg)
  · -- The plan names the members of a group, and members are found by their names.
    rw [PlannedDependency.name, Decision.name, hupdate]
    exact DependencyGroup.hasMember_iff_mem_map.mpr hmember
  · rwa [hupdate]

/-- **No plan proposes an excluded version**: every range that a condition of the job yields for
the dependency, and every range of the ceiling of a group that it has joined, can be read and does
not admit the version that is proposed. -/
theorem excludes_of_update :
    (∀ definition ∈ job.conditions, ∃ c, definition.condition? = .ok c ∧
      (c.appliesTo d.name = true →
        ∀ range ∈ c.ignored d (job.securityOnly || options.securityOnly), Excludes range w)) ∧
      ∀ (i : Nat) (definition : GroupDefinition), job.groups[i]? = some definition →
        ∃ g group, DependencyGroup.read? definition.name definition.settings
            job.experimentalRules = .ok g ∧ plan.groups[i]? = some group ∧
          (d.name ∈ group.members → ∀ range ∈ g.ignored d, Excludes range w) :=
  ⟨fun _ hdefinition => excludes_of_condition hrun hp hupdate hdefinition,
    fun _ _ hdefinition => excludes_of_group hrun hp hupdate hdefinition⟩

end Update

/-- A job with one dependency, one condition on it and one group that admits patches alone. The
second part of the version in use cannot be raised. -/
def cappedJob : Job where
  securityOnly := false
  experiments := Experiments.none.register Experiments.groupRules true
  groups := [⟨"web", ⟨some ["ra*"], none, none, some "patch"⟩⟩]
  conditions := [⟨"rails", some ["= 1.2.5"], none, false⟩]
  entries := [⟨⟨"rails", some "1.2-3", .bundler, []⟩,
    [⟨"1.2-3.0.1", none⟩, ⟨"1.2.5", none⟩, ⟨"1.3.0", none⟩, ⟨"2.0.0", none⟩]⟩]

/-- What is planned for its dependency. -/
def cappedEntry : PlannedDependency :=
  ⟨["web"], ["= 1.2.5", ">= 2.a", ">= 1.2-3.1.a, < 2"],
    .update ⟨"rails", some "1.2-3", .bundler, []⟩ "1.2-3.0.1" none⟩

/-- The plan for the job. -/
def cappedPlan : Plan :=
  ⟨false, [⟨"web", false, ["rails"]⟩], [], [cappedEntry], []⟩

theorem plan?_cappedJob : cappedJob.plan? ⟨false, none, ⟨0, 0⟩⟩ = .ok cappedPlan := by
  -- The scans of versions and patterns recurse on the length of their texts.
  with_unfolding_all decide

theorem excludes_of_update_cappedJob :
    cappedJob.plan? ⟨false, none, ⟨0, 0⟩⟩ = .ok cappedPlan ∧
      cappedEntry ∈ cappedPlan.dependencies ∧
      (∀ definition ∈ cappedJob.conditions, ∃ c, definition.condition? = .ok c ∧
        (c.appliesTo "rails" = true →
          ∀ range ∈ c.ignored ⟨"rails", some "1.2-3", .bundler, []⟩ false,
            Excludes range "1.2-3.0.1")) ∧
      ∀ (i : Nat) (definition : GroupDefinition), cappedJob.groups[i]? = some definition →
        ∃ g group, DependencyGroup.read? definition.name definition.settings
            cappedJob.experimentalRules = .ok g ∧ cappedPlan.groups[i]? = some group ∧
          ("rails" ∈ group.members →
            ∀ range ∈ g.ignored ⟨"rails", some "1.2-3", .bundler, []⟩,
              Excludes range "1.2-3.0.1") := by
  have hp : cappedEntry ∈ cappedPlan.dependencies := List.mem_singleton.mpr rfl
  have hupdate : cappedEntry.decision =
      .update ⟨"rails", some "1.2-3", .bundler, []⟩ "1.2-3.0.1" none := rfl
  have h := excludes_of_update plan?_cappedJob hp hupdate
  exact ⟨plan?_cappedJob, hp, h⟩

end Job

end UpdatePlanner
