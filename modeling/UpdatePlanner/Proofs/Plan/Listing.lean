import UpdatePlanner.Proofs.Data.Keys
import UpdatePlanner.Proofs.Plan.Accounts
import UpdatePlanner.Report.Summary

/-!
# Names in a plan

A plan says by names what is in a group and what is in none, and reports look the entries up again
under these names. For a job whose dependencies have distinct names this finds, for each group, the
entries that it lists, and beside the groups those that no group lists.

## Main definitions

* `PlannedGroup.title g`: what stands over the entries of a group
* `PlannedGroup.lists g d`, `Plan.isGrouped plan d`: an entry stands among the members of a group,
  or of some group of a plan
* `Plan.NamesEntries plan`: the names of a plan are those of its entries

## Main results

* `Plan.NamesEntries.groupSection_eq`, `Plan.NamesEntries.ungroupedSection_eq`: what is found under
  the names of a group, and under those beside the groups
* `Plan.NamesEntries.length_filter_lists`, `Plan.NamesEntries.length_filter_not_isGrouped`: it is
  as much as there are names
* `Job.namesEntries_of_plan?`: what names a plan for distinct names holds
-/

namespace UpdatePlanner

/-- What stands over the entries of a group. -/
def PlannedGroup.title (g : PlannedGroup) : String :=
  "Group " ++ g.name ++ if g.targetsHighest then "" else " (capped)"

/-- Whether an entry stands among the members of a group. -/
def PlannedGroup.lists (g : PlannedGroup) (d : PlannedDependency) : Bool :=
  g.members.contains d.name

/-- Whether some group of a plan lists an entry. -/
def Plan.isGrouped (plan : Plan) (d : PlannedDependency) : Bool :=
  plan.groups.any fun g => g.lists d

/-- The names in a plan are those of its entries, each at most once and in their order, and beside
the groups stand the names of those that no group lists. -/
structure Plan.NamesEntries (plan : Plan) : Prop where
  nodup : (plan.dependencies.map PlannedDependency.name).Nodup
  members : ∀ g ∈ plan.groups, g.members.Sublist (plan.dependencies.map PlannedDependency.name)
  ungrouped : plan.ungrouped.Sublist (plan.dependencies.map PlannedDependency.name)
  contains_ungrouped : ∀ d ∈ plan.dependencies,
    plan.ungrouped.contains d.name = !plan.isGrouped d

/-! ## What is found under the names -/

namespace Plan.NamesEntries

variable {plan : Plan} (h : plan.NamesEntries)
include h

section Group

variable {g : PlannedGroup} (hg : g ∈ plan.groups)
include hg

theorem groupSection_eq :
    plan.groupSection g = ⟨g.title, plan.dependencies.filter g.lists⟩ :=
  congrArg (Section.mk g.title) (filterMap_find?_of_sublist h.nodup (h.members g hg))

theorem length_filter_lists : (plan.dependencies.filter g.lists).length = g.members.length :=
  length_filter_of_sublist h.nodup (h.members g hg)

end Group

theorem filter_contains_ungrouped :
    (plan.dependencies.filter fun d => plan.ungrouped.contains d.name) =
      plan.dependencies.filter fun d => !plan.isGrouped d :=
  List.filter_congr h.contains_ungrouped

theorem ungroupedSection_eq :
    plan.ungroupedSection = ⟨"Ungrouped", plan.dependencies.filter fun d => !plan.isGrouped d⟩ := by
  rw [← h.filter_contains_ungrouped]
  exact congrArg (Section.mk "Ungrouped") (filterMap_find?_of_sublist h.nodup h.ungrouped)

theorem length_filter_not_isGrouped :
    (plan.dependencies.filter fun d => !plan.isGrouped d).length = plan.ungrouped.length := by
  rw [← h.filter_contains_ungrouped]
  exact length_filter_of_sublist h.nodup h.ungrouped

end Plan.NamesEntries

namespace Job

open Assignment

variable {job : Job} {options : PlanOptions} {plan : Plan}

theorem names_planWith (job : Job) (options : PlanOptions) (conditions : List IgnoreCondition)
    (a : Assignment) :
    (job.planWith options conditions a).dependencies.map PlannedDependency.name =
      job.dependencies.map Dependency.name := by
  rw [map_dependencies_planWith]
  exact List.map_congr_left fun d _ => name_planFor job options conditions a d

/-- To be grouped by a plan is to be grouped by the assignment that it was made with. -/
theorem isGrouped_planWith (conditions : List IgnoreCondition) (a : Assignment)
    (d : PlannedDependency) :
    (job.planWith options conditions a).isGrouped d = a.isGrouped d.name := by
  rw [Plan.isGrouped, planWith, List.any_map, Assignment.isGrouped]
  congr 1
  funext g
  rw [Function.comp_apply, PlannedGroup.lists, Bool.eq_iff_iff, List.contains_iff_mem,
    DependencyGroup.hasMember_iff_mem_map]

theorem contains_ungrouped_planWith (conditions : List IgnoreCondition) (a : Assignment)
    (name : String) :
    (job.planWith options conditions a).ungrouped.contains name = a.isSetAside name := by
  rw [Bool.eq_iff_iff, List.contains_iff_mem]
  exact mem_map_name_ungrouped

/-- **The names in a plan are those of its entries**, if those of the job are distinct. -/
theorem namesEntries_of_plan? (hnames : (job.dependencies.map Dependency.name).Nodup)
    (hrun : job.plan? options = .ok plan) : plan.NamesEntries := by
  obtain ⟨conditions, groups, -, hgroups, rfl⟩ := plan?_eq_ok_iff.mp hrun
  have hempty := members_of_groups? hgroups
  constructor
  case nodup =>
    rw [names_planWith]
    exact hnames
  case members =>
    -- The members were kept from what the rules admit, which was kept from the dependencies.
    intro g hg
    rw [planWith, groups_finished_eq hempty, List.map_map] at hg
    obtain ⟨g₀, -, rfl⟩ := List.mem_map.mp hg
    rw [names_planWith]
    have kept : (firstOfEachName (job.dependencies.filter g₀.admits)).Sublist job.dependencies :=
      (filterWithEarlier_sublist ..).trans List.filter_sublist
    exact kept.map Dependency.name
  case ungrouped =>
    have hungrouped : (finished groups job.dependencies).ungrouped =
        leftOver groups job.dependencies := ungrouped_foldl_place hempty job.dependencies
    rw [names_planWith, planWith, hungrouped]
    exact (filterWithEarlier_sublist ..).map _
  case contains_ungrouped =>
    intro p hp
    obtain ⟨d, hd, rfl⟩ := exists_of_mem_planWith hp
    rw [contains_ungrouped_planWith, isGrouped_planWith, name_planFor]
    -- A dependency is on one of the two sides, and its name comes up only once.
    have hcovered := isGrouped_or_isSetAside hempty hd
    have hdisjoint := mt (isGrouped_and_isSetAside_iff hempty).mp
      (not_joinsLate_of_nodup hnames d.name)
    cases hgrouped : (finished groups job.dependencies).isGrouped d.name with
    | false => simpa [hgrouped] using hcovered
    | true => simpa [hgrouped] using hdisjoint

end Job

end UpdatePlanner
