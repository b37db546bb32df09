import UpdatePlanner.Proofs.Group.Partition
import UpdatePlanner.Proofs.Plan.ByRules

/-!
# What a plan accounts for

The groups of a plan and the names beside them are taken from the assignment, its entries and its
failures from the walk over the dependencies that comes after it. Still they fit together: each
dependency of the job has its entry, the groups of an entry are those that list it, what is in no
group stands beside them, and a failure is recorded exactly where an entry shows its message.

## Main definitions

* `PlannedDependency.refusal? p`: the name and the message of an entry with a range that cannot be
  read
* `Plan.AccountsFor plan job`: the parts of a plan fit its job and each other

## Main results

* `refusal?_decide?`: a decision shows the message of the failure that is recorded with it
* `Job.failures_planWith`: the failures of a run are those that its entries show
* `Job.accountsFor_of_plan?`: every plan accounts for its job
-/

namespace UpdatePlanner

/-! ## Failures -/

/-- The message of a decision that was not taken for want of readable ranges. -/
def Decision.refusal? : Decision → Option String
  | .skip _ (.invalidRange message) => some message
  | _ => none

/-- A selection is only made where all ranges were read. -/
theorem Selector.refusal?_select (s : Selector) (d : Dependency) (offered : List Candidate) :
    (s.select d offered).refusal? = none := by
  unfold select
  split
  · rfl
  · split
    · rfl
    · split
      · rfl
      · split <;> rfl

/-- **A decision shows the message of the failure that is recorded with it**, if there is one. -/
theorem refusal?_decide? (ranges : List String) (minAge : Option Duration) (now : Instant)
    (d : Dependency) (offered : List Candidate) :
    (decide? ranges minAge now d offered).1.refusal? =
      (decide? ranges minAge now d offered).2.map PolicyFailure.message := by
  unfold decide?
  split
  · next selector _ => exact selector.refusal?_select d offered
  · rfl

/-- The name and the message of an entry with a range that cannot be read. -/
def PlannedDependency.refusal? (p : PlannedDependency) : Option (String × String) :=
  p.decision.refusal?.map fun message => (p.name, message)

/-! ## Parts of a plan -/

/-- The parts of a plan fit its job and each other. -/
structure Plan.AccountsFor (plan : Plan) (job : Job) : Prop where
  dependencies : (plan.dependencies.map fun p => p.decision.dependency) =
    job.entries.map Entry.dependency
  groups : ∀ p ∈ plan.dependencies, p.groups =
    (plan.groups.filter fun g => g.members.contains p.name).map PlannedGroup.name
  ungrouped : ∀ p ∈ plan.dependencies, p.groups = [] → p.name ∈ plan.ungrouped
  failures : (plan.failures.map fun f => (f.dependency, f.cause.message)) =
    plan.dependencies.filterMap PlannedDependency.refusal?
  totals : plan.updates.length + plan.skips.length = job.entries.length

namespace Assignment

theorem mem_map_name_ungrouped {a : Assignment} {name : String} :
    name ∈ a.ungrouped.map Dependency.name ↔ a.isSetAside name = true := by
  rw [isSetAside, List.mem_map, List.any_eq_true]
  simp only [beq_iff_eq]

theorem isGrouped_eq_false_of_groupsOf {a : Assignment} {d : Dependency} (h : a.groupsOf d = []) :
    a.isGrouped d.name = false := by
  rw [isGrouped, List.any_eq_false]
  exact List.filter_eq_nil_iff.mp h

end Assignment

namespace Job

open Assignment

variable {job : Job} {options : PlanOptions} {conditions : List IgnoreCondition} {a : Assignment}

/-- A step of the run: an entry shows the failure that is recorded with it. -/
theorem refusal?_planFor (d : Dependency) :
    (job.planFor options conditions a d).1.refusal? =
      (job.planFor options conditions a d).2.map fun f => (f.dependency, f.cause.message) := by
  rw [PlannedDependency.refusal?, name_planFor, decision_planFor, refusal?_decide?,
    failure_planFor, Option.map_map, Option.map_map]
  rfl

/-- **The failures of a run** are those that its entries show, in their order. -/
theorem failures_planWith :
    ((job.planWith options conditions a).failures.map fun f => (f.dependency, f.cause.message)) =
      (job.planWith options conditions a).dependencies.filterMap PlannedDependency.refusal? := by
  simp only [planWith, List.map_filterMap, List.filterMap_map]
  apply List.filterMap_congr
  intro d _
  exact (refusal?_planFor d).symm

theorem dependencies_planWith :
    ((job.planWith options conditions a).dependencies.map fun p => p.decision.dependency) =
      job.entries.map Entry.dependency := by
  rw [map_dependencies_planWith, dependencies, List.map_map]
  apply List.map_congr_left
  intro e _
  exact dependency_planFor ..

/-- **The groups of an entry** are those of the plan that list its name. -/
theorem groups_planFor (d : Dependency) :
    (job.planFor options conditions a d).1.groups =
      ((job.planWith options conditions a).groups.filter fun g => g.members.contains d.name).map
        PlannedGroup.name := by
  simp only [planWith, List.filter_map, List.map_map]
  have hlisted : (a.groups.filter ((fun g : PlannedGroup => g.members.contains d.name) ∘
      fun g => ⟨g.name, g.targetsHighest, g.members.map Dependency.name⟩)) = a.groupsOf d := by
    apply List.filter_congr
    intro g _
    rw [Function.comp_apply, Bool.eq_iff_iff, List.contains_iff_mem,
      DependencyGroup.hasMember_iff_mem_map]
  rw [hlisted]
  rfl

/-- **Every plan accounts for its job.** There is one entry for each dependency of the job, in the
order of the job. The groups of an entry are those of the plan that list its name, and without any
the name stands beside the groups. The failures are those that the entries show, and every entry
is an update or a skip. -/
theorem accountsFor_of_plan? {plan : Plan} (hrun : job.plan? options = .ok plan) :
    plan.AccountsFor job := by
  obtain ⟨conditions, groups, -, hgroups, rfl⟩ := plan?_eq_ok_iff.mp hrun
  refine ⟨dependencies_planWith, ?_, ?_, failures_planWith, ?_⟩
  · intro p hp
    obtain ⟨d, -, rfl⟩ := exists_of_mem_planWith hp
    rw [name_planFor]
    exact groups_planFor d
  · intro p hp hnone
    obtain ⟨d, hd, rfl⟩ := exists_of_mem_planWith hp
    have hungrouped : (finished groups job.dependencies).isGrouped d.name = false :=
      isGrouped_eq_false_of_groupsOf (List.map_eq_nil_iff.mp hnone)
    -- What is not in a group was set aside.
    rcases isGrouped_or_isSetAside (members_of_groups? hgroups) hd with hin | haside
    · rw [hungrouped] at hin
      cases hin
    · rw [name_planFor]
      exact mem_map_name_ungrouped.mpr haside
  · rw [Plan.length_updates_add_length_skips, ← List.length_map (f := fun p : PlannedDependency =>
      p.decision.dependency), dependencies_planWith, List.length_map]

/-- A job that lists `rake` twice and has a range for `rack` that cannot be read. -/
def repeatingJob : Job where
  securityOnly := false
  experiments := .none
  groups := [⟨"tools", ⟨none, none, some "development", none⟩⟩,
    ⟨"web", ⟨some ["ra*"], some ["rake"], none, none⟩⟩]
  conditions := [⟨"rack", some [">> 1"], none, false⟩]
  entries := [⟨⟨"rake", some "13.0", .bundler, ["default"]⟩, [⟨"13.1", none⟩]⟩,
    ⟨⟨"rack", some "2.0", .bundler, []⟩, [⟨"3.0", none⟩]⟩,
    ⟨⟨"puma", some "6.0", .bundler, []⟩, [⟨"6.0", none⟩]⟩,
    ⟨⟨"rake", some "13.0", .bundler, ["test"]⟩, []⟩]

/-- The plan for the job. -/
def repeatingPlan : Plan where
  securityOnly := false
  groups := [⟨"tools", true, ["rake"]⟩, ⟨"web", true, ["rack"]⟩]
  ungrouped := ["rake", "puma"]
  dependencies := [⟨["tools"], [], .update ⟨"rake", some "13.0", .bundler, ["default"]⟩ "13.1" none⟩,
    ⟨["web"], [">> 1"], .skip ⟨"rack", some "2.0", .bundler, []⟩
      (.invalidRange "invalid version requirement '>> 1': cannot parse constraint '>> 1'")⟩,
    ⟨[], [], .skip ⟨"puma", some "6.0", .bundler, []⟩ .alreadyLatest⟩,
    ⟨["tools"], [], .update ⟨"rake", some "13.0", .bundler, ["test"]⟩ "13.1" none⟩]
  failures := [⟨"rack", .invalidRequirement ">> 1" "cannot parse constraint '>> 1'"⟩]

theorem accountsFor_of_plan?_repeatingJob :
    repeatingJob.plan? ⟨false, none, ⟨0, 0⟩⟩ = .ok repeatingPlan ∧
      repeatingPlan.AccountsFor repeatingJob := by
  have hrun : repeatingJob.plan? ⟨false, none, ⟨0, 0⟩⟩ = .ok repeatingPlan := by
    with_unfolding_all decide
  exact ⟨hrun, accountsFor_of_plan? hrun⟩

end Job

end UpdatePlanner
