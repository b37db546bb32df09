import UpdatePlanner.Proofs.Data.Occurrences
import UpdatePlanner.Proofs.Plan.Run
import UpdatePlanner.Proofs.Selection.Rearranged

/-!
# The union of excluded ranges

What is ignored for a dependency is gathered from every condition that applies to it and from every
group it has joined, and a range that was met before is not taken again. That is more than tidiness
and no more than that: the ranges are read one after another and the first one that cannot be read
stops the dependency, so a repetition could only matter if it were read before its first occurrence.
The decision and the recorded failure are those of all ranges as they come.

## Main definitions

* `excludedLists conditions groups securityOnly d`: the ranges for a dependency, source by source
* `Plan.IsUnionOf plan job options joined lists`: a plan goes by such lists of ranges

## Main results

* `decide?_eraseDups`: a decision does not hang on repeated ranges, nor does a failure
* `Job.isUnionOf_of_plan?`: every plan goes by the ranges of its conditions and joined groups
-/

namespace UpdatePlanner

/-! ## Repeated ranges -/

namespace Selector

theorem read?_eq_error_iff {ranges : List String} {minAge : Option Duration} {now : Instant}
    {cause : PolicyFailure} :
    read? ranges minAge now = .error cause ↔ ranges.mapM Requirement.read? = .error cause := by
  unfold read?
  cases ranges.mapM Requirement.read? <;> simp [Except.map]

end Selector

/-- **A decision does not hang on repeated ranges**, and neither does the failure that is recorded
with it. -/
theorem decide?_eraseDups (ranges : List String) (minAge : Option Duration) (now : Instant)
    (d : Dependency) (offered : List Candidate) :
    decide? ranges.eraseDups minAge now d offered = decide? ranges minAge now d offered := by
  cases hread : Selector.read? ranges minAge now with
  | ok s =>
    obtain ⟨s', hread', hs⟩ := Selector.exists_read?_alike hread fun range => List.mem_eraseDups
    simp only [decide?, hread, hread', hs.select_eq]
  | error cause =>
    have hread' : Selector.read? ranges.eraseDups minAge now = .error cause := by
      rw [Selector.read?_eq_error_iff, mapM_eraseDups_eq_error_iff, ← Selector.read?_eq_error_iff,
        hread]
    simp only [decide?, hread, hread']

/-! ## Sources of ranges -/

/-- The ranges that are excluded for a dependency, source by source: those of the conditions that
apply to it, in the order of declaration, and then those of its groups. -/
def excludedLists (conditions : List IgnoreCondition) (groups : List DependencyGroup)
    (securityOnly : Bool) (d : Dependency) : List (List String) :=
  ((conditions.filter fun c => c.appliesTo d.name).map fun c => c.ignored d securityOnly) ++
    groups.map fun g => g.ignored d

theorem flatten_excludedLists (conditions : List IgnoreCondition) (groups : List DependencyGroup)
    (securityOnly : Bool) (d : Dependency) :
    (excludedLists conditions groups securityOnly d).flatten =
      excludedRanges conditions groups securityOnly d := by
  rw [excludedLists, List.flatten_append, excludedRanges, List.flatMap_def, List.flatMap_def]

/-- A plan goes by given lists of ranges for each dependency: it ignores the first occurrences in
them, which can be gathered list by list, and decides as it would with all of them. -/
structure Plan.IsUnionOf (plan : Plan) (job : Job) (options : PlanOptions)
    (joined : Dependency → List DependencyGroup) (lists : Dependency → List (List String)) :
    Prop where
  groups : plan.dependencies.map PlannedDependency.groups =
    job.dependencies.map fun d => (joined d).map DependencyGroup.name
  ignored : plan.dependencies.map PlannedDependency.ignored =
    job.dependencies.map fun d => firstOccurrences (lists d).flatten
  gathered : plan.dependencies.map PlannedDependency.ignored =
    job.dependencies.map fun d => (lists d).foldl addNew []
  distinct : ∀ p ∈ plan.dependencies, p.ignored.Nodup
  decisions : plan.dependencies.map PlannedDependency.decision =
    job.dependencies.map fun d =>
      (decide? (lists d).flatten options.minAge options.now d (job.offeredFor d.name)).1
  failures : plan.failures = job.dependencies.filterMap fun d =>
    (decide? (lists d).flatten options.minAge options.now d (job.offeredFor d.name)).2.map
      (PlanFailure.mk d.name)

namespace Job

open Assignment

variable {job : Job} {options : PlanOptions}

/-- What is planned for a dependency, by all ranges that are excluded for it. -/
theorem planFor_eq_of_lists (conditions : List IgnoreCondition) (a : Assignment) (d : Dependency) :
    job.planFor options conditions a d =
      let lists := excludedLists conditions (a.groupsOf d)
        (job.securityOnly || options.securityOnly) d
      let decided := decide? lists.flatten options.minAge options.now d (job.offeredFor d.name)
      (⟨(a.groupsOf d).map DependencyGroup.name, firstOccurrences lists.flatten, decided.1⟩,
        decided.2.map (PlanFailure.mk d.name)) := by
  simp only [planFor, ignoredRanges, decide?_eraseDups, flatten_excludedLists]
  rw [eraseDups_eq_firstOccurrences]

/-- **Every plan goes by the ranges of its conditions and of the joined groups.** What is ignored
for a dependency are the first occurrences among the ranges of the conditions that apply to it and
then of the groups of its entry, without repetitions. The decision is the one that is taken with the
ranges as they come, and so is the failure that is recorded, if there is one. -/
theorem isUnionOf_of_plan? {plan : Plan} (hrun : job.plan? options = .ok plan) :
    ∃ conditions groups, job.conditions? = .ok conditions ∧ job.groups? = .ok groups ∧
      plan.IsUnionOf job options (finished groups job.dependencies).groupsOf fun d =>
        excludedLists conditions ((finished groups job.dependencies).groupsOf d)
          (job.securityOnly || options.securityOnly) d := by
  obtain ⟨conditions, groups, hconditions, hgroups, rfl⟩ := plan?_eq_ok_iff.mp hrun
  refine ⟨conditions, groups, hconditions, hgroups, ?groups, ?ignored, ?gathered, ?distinct,
    ?decisions, ?failures⟩
  case groups => exact map_dependencies_planWith ..
  case ignored =>
    simp only [map_dependencies_planWith, planFor_eq_of_lists]
  case gathered =>
    simp only [map_dependencies_planWith, planFor_eq_of_lists]
    apply List.map_congr_left
    intro d _
    exact (foldl_addNew _ []).symm
  case distinct =>
    intro p hp
    obtain ⟨d, -, rfl⟩ := exists_of_mem_planWith hp
    rw [planFor_eq_of_lists]
    exact nodup_firstOccurrences _
  case decisions =>
    simp only [map_dependencies_planWith, planFor_eq_of_lists]
  case failures =>
    simp only [failures_planWith_eq, planFor_eq_of_lists]

/-- A job that excludes ranges more than once: by two conditions for one dependency, within a
condition, and by a group. One of the ranges that `rack` is given twice cannot be read. -/
def repeatedRangesJob : Job where
  securityOnly := false
  experiments := Experiments.none.register Experiments.groupRules true
  groups := [⟨"web", ⟨some ["ra*"], none, none, some "minor"⟩⟩]
  conditions := [⟨"rails", some [">= 8.a", "< 6", "< 6"], none, false⟩,
    ⟨"ra*", some ["< 6", "= 7.1.0"], none, false⟩,
    ⟨"rack", some [">> 1", "= 3.0", ">> 1"], none, false⟩]
  entries := [⟨⟨"rails", some "7.0.8", .bundler, []⟩,
      [⟨"5.2.0", none⟩, ⟨"7.0.9", none⟩, ⟨"7.1.0", none⟩, ⟨"8.0.0", none⟩]⟩,
    ⟨⟨"rack", some "2.0", .bundler, []⟩, [⟨"3.0", none⟩]⟩]

/-- What stops `rack`. -/
def repeatedRangesFault : PolicyFailure :=
  .invalidRequirement ">> 1" "cannot parse constraint '>> 1'"

/-- The plan for the job. -/
def repeatedRangesPlan : Plan where
  securityOnly := false
  groups := [⟨"web", false, ["rails", "rack"]⟩]
  ungrouped := []
  dependencies := [⟨["web"], [">= 8.a", "< 6", "= 7.1.0"],
      .update ⟨"rails", some "7.0.8", .bundler, []⟩ "7.0.9" none⟩,
    ⟨["web"], ["< 6", "= 7.1.0", ">> 1", "= 3.0", ">= 3.a"],
      .skip ⟨"rack", some "2.0", .bundler, []⟩ (.invalidRange repeatedRangesFault.message)⟩]
  failures := [⟨"rack", repeatedRangesFault⟩]

theorem isUnionOf_of_plan?_repeatedRangesJob :
    repeatedRangesJob.plan? ⟨false, none, ⟨0, 0⟩⟩ = .ok repeatedRangesPlan ∧
      ∃ conditions groups, repeatedRangesJob.conditions? = .ok conditions ∧
        repeatedRangesJob.groups? = .ok groups ∧
        repeatedRangesPlan.IsUnionOf repeatedRangesJob ⟨false, none, ⟨0, 0⟩⟩
          (finished groups repeatedRangesJob.dependencies).groupsOf fun d =>
            excludedLists conditions
              ((finished groups repeatedRangesJob.dependencies).groupsOf d) false d := by
  have hrun : repeatedRangesJob.plan? ⟨false, none, ⟨0, 0⟩⟩ = .ok repeatedRangesPlan := by
    with_unfolding_all decide
  exact ⟨hrun, isUnionOf_of_plan? hrun⟩

end Job

end UpdatePlanner
