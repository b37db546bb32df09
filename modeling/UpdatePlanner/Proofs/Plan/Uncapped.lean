import UpdatePlanner.Proofs.Group.Assignment
import UpdatePlanner.Proofs.Group.Capping
import UpdatePlanner.Proofs.Plan.ByRules
import UpdatePlanner.Proofs.Plan.Exclusion

/-!
# Plans without ceilings

Where the experimental rules are off, ceilings only have to be known ones. A run on a job then goes
as the run on the same job without any ceiling: the groups are read alike, gain the same members,
are all open to the highest versions and rule out nothing.

## Main definitions

* `Job.uncapped job`: the job without the ceilings of its groups
* `Job.HasValidCeilings job`: the ceilings of its groups are known ones

## Main results

* `Job.groups?_uncapped`: the groups of the job without ceilings
* `Job.planWith_uncapped`: what is planned with them
* `Job.ceilings_count_iff_capped`: groups that say that they are capped are the ones that rule
  something out, and where the experimental rules are off nothing hangs on ceilings
-/

namespace UpdatePlanner

open Assignment

/-! ## Groups without ceilings under assignment -/

namespace Assignment

section Memberless

variable {groups : List DependencyGroup} (hempty : ∀ g ∈ groups, g.members = [])
include hempty

theorem members_uncapped :
    ∀ g ∈ groups.map DependencyGroup.uncapped, g.members = [] := by
  intro g hg
  obtain ⟨g₀, hg₀, rfl⟩ := List.mem_map.mp hg
  exact hempty g₀ hg₀

/-- The rules let in the same dependencies without a ceiling, so groups gain the same members. -/
theorem groups_finished_uncapped (ds : List Dependency) :
    (finished (groups.map DependencyGroup.uncapped) ds).groups =
      (finished groups ds).groups.map DependencyGroup.uncapped := by
  rw [groups_finished_eq (members_uncapped hempty), groups_finished_eq hempty, List.map_map,
    List.map_map]
  rfl

/-- The same dependencies are set aside. -/
theorem ungrouped_finished_uncapped (ds : List Dependency) :
    (finished (groups.map DependencyGroup.uncapped) ds).ungrouped =
      (finished groups ds).ungrouped := by
  have hleft : leftOver (groups.map DependencyGroup.uncapped) ds = leftOver groups ds := by
    unfold leftOver
    simp only [List.any_map]
    rfl
  have huncapped : (finished (groups.map DependencyGroup.uncapped) ds).ungrouped = _ :=
    ungrouped_foldl_place (members_uncapped hempty) ds
  rw [huncapped, hleft]
  exact (ungrouped_foldl_place hempty ds).symm

end Memberless

end Assignment

/-! ## Runs without ceilings -/

/-- The group as configured, without its ceiling. -/
def GroupDefinition.uncapped (g : GroupDefinition) : GroupDefinition :=
  { g with settings := g.settings.uncapped }

namespace Job

/-- The job without the ceilings of its groups. -/
def uncapped (job : Job) : Job :=
  { job with groups := job.groups.map GroupDefinition.uncapped }

/-- The ceilings of the groups are known ones. -/
def HasValidCeilings (job : Job) : Prop :=
  ∀ g ∈ job.groups, g.settings.HasValidCeiling

variable {job : Job} {options : PlanOptions} {conditions : List IgnoreCondition}
  {groups : List DependencyGroup}

/-- **The groups of the job without ceilings** are its groups without their ceilings, and the first
fault is the same. -/
theorem groups?_uncapped (hvalid : job.HasValidCeilings) :
    job.uncapped.groups? = job.groups?.map (List.map DependencyGroup.uncapped) := by
  apply mapM_map_eq_map
  intro g hg
  exact DependencyGroup.read?_uncapped (hvalid g hg) job.experimentalRules

section Closed

variable (hclosed : ∀ g ∈ groups, g.experimental = false)
include hclosed

/-- Groups whose ceilings are switched off exclude the same with and without them. -/
theorem ignoredRanges_uncapped (conditions : List IgnoreCondition) (securityOnly : Bool)
    (d : Dependency) :
    ignoredRanges conditions (groups.map DependencyGroup.uncapped) securityOnly d =
      ignoredRanges conditions groups securityOnly d := by
  have hnothing : (groups.flatMap fun g => g.uncapped.ignored d) =
      groups.flatMap fun g => g.ignored d := by
    apply List.flatMap_congr
    intro g hg
    rw [DependencyGroup.ignored_uncapped (hclosed g hg)]
  rw [ignoredRanges, ignoredRanges, excludedRanges, excludedRanges, List.flatMap_map, hnothing]

variable (hempty : ∀ g ∈ groups, g.members = [])
include hempty

/-- What is planned for a dependency does not hang on ceilings that are switched off. -/
theorem planFor_uncapped (d : Dependency) :
    job.uncapped.planFor options conditions
        (finished (groups.map DependencyGroup.uncapped) job.dependencies) d =
      job.planFor options conditions (finished groups job.dependencies) d := by
  have hjoined : ∀ g ∈ groups.filter fun g => g.admitsNamed job.dependencies d.name,
      g.experimental = false := fun g hg => hclosed g (List.mem_filter.mp hg).1
  have hfilter : (groups.map DependencyGroup.uncapped).filter
      (fun g => g.admitsNamed job.dependencies d.name) =
        (groups.filter fun g => g.admitsNamed job.dependencies d.name).map
          DependencyGroup.uncapped := List.filter_map
  rw [planFor_finished (members_uncapped hempty), planFor_finished hempty]
  simp only [hfilter, ignoredRanges_uncapped hjoined, List.map_map]
  rfl

/-- A group of the plan is the same without a ceiling that is switched off. -/
theorem plannedGroups_uncapped (ds : List Dependency) :
    ((finished (groups.map DependencyGroup.uncapped) ds).groups.map fun g =>
        PlannedGroup.mk g.name g.targetsHighest (g.members.map Dependency.name)) =
      (finished groups ds).groups.map fun g =>
        ⟨g.name, g.targetsHighest, g.members.map Dependency.name⟩ := by
  rw [groups_finished_uncapped hempty, groups_finished, List.map_map]
  apply List.map_congr_left
  intro g hg
  obtain ⟨g₀, hg₀, rfl⟩ := List.mem_map.mp hg
  -- Enrolment changes nothing but the members, so the switch is still off.
  obtain ⟨members, henrol⟩ := exists_enrol_eq ds g₀
  have hoff : (enrol ds g₀).experimental = false := by
    rw [henrol]
    exact hclosed g₀ hg₀
  rw [Function.comp_apply, DependencyGroup.targetsHighest_uncapped hoff]
  rfl

/-- **What is planned** does not hang on ceilings that are switched off. -/
theorem planWith_uncapped :
    job.uncapped.planWith options conditions
        (finished (groups.map DependencyGroup.uncapped) job.dependencies) =
      job.planWith options conditions (finished groups job.dependencies) := by
  have hplanned : job.uncapped.dependencies.map (job.uncapped.planFor options conditions
      (finished (groups.map DependencyGroup.uncapped) job.dependencies)) =
        job.dependencies.map (job.planFor options conditions
          (finished groups job.dependencies)) :=
    List.map_congr_left fun d _ => planFor_uncapped hclosed hempty d
  rw [planWith, planWith, hplanned, plannedGroups_uncapped hclosed hempty,
    ungrouped_finished_uncapped hempty]
  rfl

end Closed

/-- **Where the experimental rules are off, nothing hangs on ceilings**: as long as they are known
ones, the run on the job without them has the same plan, or the same failure. -/
theorem plan?_uncapped (hoff : job.experimentalRules = false) (hvalid : job.HasValidCeilings)
    (options : PlanOptions) : job.uncapped.plan? options = job.plan? options := by
  have hconditions : job.uncapped.conditions? = job.conditions? := rfl
  rw [plan?, plan?, hconditions, groups?_uncapped hvalid]
  cases job.conditions? with
  | error fault => rfl
  | ok conditions =>
    cases hgroups : job.groups? with
    | error fault => rfl
    | ok groups =>
      have hclosed : ∀ g ∈ groups, g.experimental = false := by
        intro g hg
        obtain ⟨definition, -, hread⟩ := exists_mem_of_mem_mapM hgroups hg
        rw [DependencyGroup.experimental_of_read? hread, hoff]
      exact congrArg Except.ok (planWith_uncapped hclosed (members_of_groups? hgroups))

/-- **The capped flag tells the truth.** A group says that it is capped exactly if it rules out
something for every dependency whose version has a part, and where it says that it is open it rules
out nothing. Where the experimental rules are off and the ceilings are known ones, a run goes as it
does without any ceiling. -/
theorem ceilings_count_iff_capped :
    (∀ g : DependencyGroup,
      (g.targetsHighest = false ↔
        ∀ (d : Dependency) (version : String), d.version = some version →
          Version.parts version ≠ [] → g.ignored d ≠ []) ∧
      (g.targetsHighest = true → ∀ d, g.ignored d = [])) ∧
    ∀ (job : Job) (options : PlanOptions), job.experimentalRules = false →
      job.HasValidCeilings → job.uncapped.plan? options = job.plan? options := by
  refine ⟨?_, fun job options hoff hvalid => plan?_uncapped hoff hvalid options⟩
  intro g
  refine ⟨⟨?_, ?_⟩, DependencyGroup.ignored_eq_nil_of_targetsHighest⟩
  · intro hcapped d version hversion hparts
    exact DependencyGroup.ignored_ne_nil_of_capped hcapped hversion hparts
  · intro hrules
    -- An open group would rule out nothing for a dependency at version `1`, either.
    by_contra hopen
    have hparts : Version.parts "1" ≠ [] := by decide
    exact hrules ⟨"rack", some "1", .bundler, []⟩ "1" rfl hparts
      (DependencyGroup.ignored_eq_nil_of_targetsHighest (Bool.not_eq_false _ ▸ hopen) _)

/-- The job with a ceiling, which is switched off. -/
def uncheckedJob : Job := { cappedJob with experiments := .none }

/-- The plan for the job. -/
def uncheckedPlan : Plan :=
  ⟨false, [⟨"web", true, ["rails"]⟩], [],
    [⟨["web"], ["= 1.2.5"], .update ⟨"rails", some "1.2-3", .bundler, []⟩ "2.0.0" none⟩], []⟩

/-- A group of what is needed in production, with a ceiling that is switched on. -/
def productionUpTo (c : Ceiling) : DependencyGroup :=
  ⟨"web", ⟨none, none, some .production, some c⟩, .empty, .empty, true, []⟩

/-- A ceiling for patches caps its group and one for major updates does not. Switched off, neither
keeps the job from its major update. -/
theorem ceilings_count_iff_capped_uncheckedJob :
    (productionUpTo .patch).targetsHighest = false ∧
      (∀ (d : Dependency) (version : String), d.version = some version →
        Version.parts version ≠ [] → (productionUpTo .patch).ignored d ≠ []) ∧
      (productionUpTo .major).targetsHighest = true ∧
      (∀ d, (productionUpTo .major).ignored d = []) ∧
      uncheckedJob.experimentalRules = false ∧ uncheckedJob.HasValidCeilings ∧
      uncheckedJob.uncapped.plan? ⟨false, none, ⟨0, 0⟩⟩ = .ok uncheckedPlan := by
  have hoff : uncheckedJob.experimentalRules = false := by decide
  have hvalid : uncheckedJob.HasValidCeilings := by
    intro g hg name hname
    rw [List.mem_singleton.mp hg] at hname
    exact ⟨.patch, Option.some.inj hname⟩
  have hrun : uncheckedJob.plan? ⟨false, none, ⟨0, 0⟩⟩ = .ok uncheckedPlan := by
    with_unfolding_all decide
  obtain ⟨hgroups, hruns⟩ := ceilings_count_iff_capped
  exact ⟨rfl, (hgroups (productionUpTo .patch)).1.mp rfl, rfl,
    (hgroups (productionUpTo .major)).2 rfl, hoff, hvalid,
    (hruns uncheckedJob _ hoff hvalid).trans hrun⟩

end Job

end UpdatePlanner
