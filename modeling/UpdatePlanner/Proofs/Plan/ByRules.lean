import UpdatePlanner.Proofs.Ignore.Ceiling
import UpdatePlanner.Proofs.Plan.Run

/-!
# Plans by the rules of groups

Groups are read without members, and whether a dependency has joined one of them is then settled by
the rules of the group and by the dependencies of its name. What is planned for a dependency does
not hang on the state of the assignment beyond that.

## Main definitions

* `DependencyGroup.withExperimental g e`: the group with its ceiling switched on or off

## Main results

* `Assignment.groupsOf_finished`: the groups that a dependency has joined, by their rules
* `Job.planFor_finished`: what is planned for a dependency, by the rules of the groups
* `Job.groups?_eq_ok_map`: the groups of a job but for the switch
-/

namespace UpdatePlanner

/-! ## Groups that were read -/

namespace DependencyGroup

/-- The group with its ceiling switched on or off. -/
def withExperimental (g : DependencyGroup) (experimental : Bool) : DependencyGroup :=
  { g with experimental := experimental }

/-- Whether a group can be read does not hang on the switch, and nothing else of it does. -/
theorem read?_withExperimental {name : String} {settings : GroupSettings} {e : Bool}
    {g : DependencyGroup} (h : read? name settings e = .ok g) (e' : Bool) :
    read? name settings e' = .ok (g.withExperimental e') := by
  obtain ⟨rules, included, excluded, hrules, hincluded, hexcluded, rfl⟩ := read?_eq_ok_iff.mp h
  exact read?_eq_ok_iff.mpr ⟨rules, included, excluded, hrules, hincluded, hexcluded, rfl⟩

/-- With the ceiling switched on, a group rules out no fewer ranges. -/
theorem ignored_withExperimental_subset {g : DependencyGroup} {e : Bool}
    (he : g.experimental = true → e = true) (d : Dependency) :
    g.ignored d ⊆ (g.withExperimental e).ignored d := by
  unfold ignored withExperimental
  cases hceiling : g.rules.ceiling with
  | none => simp
  | some c =>
    cases hg : g.experimental with
    | false => simp
    | true => simp [he hg]

end DependencyGroup

/-! ## Joined groups -/

namespace Assignment

/-- The groups that a dependency has joined are those whose rules admit one of its name. -/
theorem groupsOf_finished {groups : List DependencyGroup} (hempty : ∀ g ∈ groups, g.members = [])
    (ds : List Dependency) (d : Dependency) :
    (finished groups ds).groupsOf d =
      (groups.filter fun g => g.admitsNamed ds d.name).map (enrol ds) := by
  rw [groupsOf, groups_finished, List.filter_map]
  congr 1
  apply List.filter_congr
  intro g hg
  exact hasMember_enrol (hempty g hg) ds d.name

end Assignment

namespace Job

open Assignment

variable {job : Job} {options : PlanOptions}

/-- What the groups of a dependency exclude does not hang on their members. -/
theorem ignoredRanges_enrol (conditions : List IgnoreCondition) (groups : List DependencyGroup)
    (securityOnly : Bool) (ds : List Dependency) (d : Dependency) :
    ignoredRanges conditions (groups.map (enrol ds)) securityOnly d =
      ignoredRanges conditions groups securityOnly d := by
  simp only [ignoredRanges, excludedRanges, List.flatMap_map, ignored_enrol]

/-- **What is planned for a dependency**, by the rules of the groups instead of their members. -/
theorem planFor_finished {groups : List DependencyGroup} (hempty : ∀ g ∈ groups, g.members = [])
    (conditions : List IgnoreCondition) (ds : List Dependency) (d : Dependency) :
    job.planFor options conditions (finished groups ds) d =
      let joined := groups.filter fun g => g.admitsNamed ds d.name
      let ranges := ignoredRanges conditions joined (job.securityOnly || options.securityOnly) d
      let decided := decide? ranges options.minAge options.now d (job.offeredFor d.name)
      (⟨joined.map DependencyGroup.name, ranges, decided.1⟩,
        decided.2.map (PlanFailure.mk d.name)) := by
  have hnames : ((groups.filter fun g => g.admitsNamed ds d.name).map (enrol ds)).map
      DependencyGroup.name = (groups.filter fun g => g.admitsNamed ds d.name).map
        DependencyGroup.name := by
    rw [List.map_map]
    exact List.map_congr_left fun g _ => name_enrol ds g
  unfold planFor
  simp only [groupsOf_finished hempty, ignoredRanges_enrol, hnames]

theorem members_of_groups? {groups : List DependencyGroup} (h : job.groups? = .ok groups) :
    ∀ g ∈ groups, g.members = [] := by
  intro g hg
  obtain ⟨definition, -, hread⟩ := exists_mem_of_mem_mapM h hg
  exact DependencyGroup.members_of_read? hread

/-- Jobs with the same groups as configured have the same groups but for the switch. -/
theorem groups?_eq_ok_map {job' : Job} (hgroups : job.groups = job'.groups)
    {groups : List DependencyGroup} (h : job.groups? = .ok groups) :
    job'.groups? = .ok (groups.map fun g => g.withExperimental job'.experimentalRules) := by
  unfold groups? at h ⊢
  rw [← hgroups]
  apply mapM_eq_ok_map h
  intro definition g hread
  exact DependencyGroup.read?_withExperimental hread _

end Job

end UpdatePlanner
