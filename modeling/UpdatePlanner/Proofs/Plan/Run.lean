import UpdatePlanner.Plan.Planner
import UpdatePlanner.Proofs.Group.Enrolment
import UpdatePlanner.Proofs.Selection.Selected

/-!
# What a plan is made of

A run that succeeds has read every condition and every group. Every entry of the plan is a decision
for one dependency, taken with all the ranges that are excluded for it.

## Main definitions

* `Job.Entered job options conditions groups p`: how an entry of a plan came about
* `Excludes range w`: a range is read, and does not admit a version

## Main results

* `Job.plan?_eq_ok_iff`: what a run that succeeds has read
* `Job.exists_entered`: every entry of a plan has come about in this way
* `Job.Entered.excludes`: a proposed version is in none of the ranges of its entry
-/

namespace UpdatePlanner

/-! ## Runs -/

/-- A range that can be read and does not admit the version that a text denotes. -/
def Excludes (range : String) (version : String) : Prop :=
  ∃ q, Requirement.read? range = .ok q ∧ q.admits (Version.read version) = false

namespace Job

open Assignment

variable {job : Job} {options : PlanOptions} {plan : Plan}

/-- What a run that succeeds has read, and what it makes of it. -/
theorem plan?_eq_ok_iff :
    job.plan? options = .ok plan ↔
      ∃ conditions groups, job.conditions? = .ok conditions ∧ job.groups? = .ok groups ∧
        job.planWith options conditions (finished groups job.dependencies) = plan := by
  unfold plan?
  constructor
  · intro h
    obtain ⟨conditions, hconditions, h⟩ := bind_eq_ok_iff.mp h
    obtain ⟨groups, hgroups, h⟩ := bind_eq_ok_iff.mp h
    rw [assign_start] at h
    exact ⟨conditions, groups, hconditions, hgroups, Except.ok.inj h⟩
  · rintro ⟨conditions, groups, hconditions, hgroups, rfl⟩
    rw [hconditions, hgroups]
    rfl

theorem dependency_decide? (ranges : List String) (minAge : Option Duration) (now : Instant)
    (d : Dependency) (offered : List Candidate) :
    (decide? ranges minAge now d offered).1.dependency = d := by
  unfold decide?
  split
  · exact Selector.dependency_select
  · rfl

theorem dependency_planFor (job : Job) (options : PlanOptions)
    (conditions : List IgnoreCondition) (a : Assignment) (d : Dependency) :
    (job.planFor options conditions a d).1.decision.dependency = d :=
  dependency_decide? ..

theorem name_planFor (job : Job) (options : PlanOptions) (conditions : List IgnoreCondition)
    (a : Assignment) (d : Dependency) :
    (job.planFor options conditions a d).1.name = d.name := by
  rw [PlannedDependency.name, Decision.name, dependency_planFor]

/-- What is planned for a dependency is decided with the ranges of its entry. -/
theorem decision_planFor (job : Job) (options : PlanOptions) (conditions : List IgnoreCondition)
    (a : Assignment) (d : Dependency) :
    (job.planFor options conditions a d).1.decision =
      (decide? (job.planFor options conditions a d).1.ignored options.minAge options.now d
        (job.offeredFor d.name)).1 := rfl

/-- A failure is recorded under the name of the dependency. -/
theorem failure_planFor (job : Job) (options : PlanOptions) (conditions : List IgnoreCondition)
    (a : Assignment) (d : Dependency) :
    (job.planFor options conditions a d).2 =
      (decide? (job.planFor options conditions a d).1.ignored options.minAge options.now d
        (job.offeredFor d.name)).2.map (PlanFailure.mk d.name) := rfl

/-- An update that is planned for a dependency is one of it. -/
theorem eq_of_planFor_update {conditions : List IgnoreCondition} {a : Assignment}
    {d d' : Dependency} {w : String} {t : Option Instant}
    (h : (job.planFor options conditions a d).1.decision = .update d' w t) : d = d' := by
  have hdependency := dependency_planFor job options conditions a d
  rw [h, Decision.dependency] at hdependency
  exact hdependency.symm

/-- The entries of a plan, one for each dependency of the job. -/
theorem map_dependencies_planWith {α : Type} (f : PlannedDependency → α)
    (conditions : List IgnoreCondition) (a : Assignment) :
    (job.planWith options conditions a).dependencies.map f =
      job.dependencies.map fun d => f (job.planFor options conditions a d).1 := by
  rw [planWith, List.map_map, List.map_map]
  rfl

/-- The failures of a plan, in the order of the dependencies of the job. -/
theorem failures_planWith_eq (conditions : List IgnoreCondition) (a : Assignment) :
    (job.planWith options conditions a).failures =
      job.dependencies.filterMap fun d => (job.planFor options conditions a d).2 := by
  rw [planWith, List.filterMap_map]
  rfl

/-- Every entry is what is planned for a dependency of the job. -/
theorem exists_of_mem_planWith {conditions : List IgnoreCondition} {a : Assignment}
    {p : PlannedDependency} (hp : p ∈ (job.planWith options conditions a).dependencies) :
    ∃ d ∈ job.dependencies, (job.planFor options conditions a d).1 = p := by
  rw [planWith, List.map_map] at hp
  exact List.mem_map.mp hp

/-- The entry at a place is what is planned for the dependency at that place of the job. -/
theorem exists_of_getElem?_planWith {conditions : List IgnoreCondition} {a : Assignment} {i : Nat}
    {p : PlannedDependency}
    (hp : (job.planWith options conditions a).dependencies[i]? = some p) :
    ∃ d, job.dependencies[i]? = some d ∧ (job.planFor options conditions a d).1 = p := by
  rw [planWith, List.map_map, List.getElem?_map] at hp
  exact Option.map_eq_some_iff.mp hp

/-- A range is ignored because of a condition that applies, or because of a joined group. -/
theorem mem_ignoredRanges {conditions : List IgnoreCondition} {groups : List DependencyGroup}
    {securityOnly : Bool} {d : Dependency} {range : String} :
    range ∈ ignoredRanges conditions groups securityOnly d ↔
      (∃ c ∈ conditions, c.appliesTo d.name = true ∧ range ∈ c.ignored d securityOnly) ∨
        ∃ g ∈ groups, range ∈ g.ignored d := by
  rw [ignoredRanges, List.mem_eraseDups, excludedRanges, List.mem_append, List.mem_flatMap,
    List.mem_flatMap]
  simp only [List.mem_filter, and_assoc]

/-- How an entry of a plan came about: a dependency of the job was decided on with the ranges of
all conditions that apply to it and of all groups that it has joined. -/
structure Entered (job : Job) (options : PlanOptions) (conditions : List IgnoreCondition)
    (groups : List DependencyGroup) (p : PlannedDependency) : Prop where
  mem : p.decision.dependency ∈ job.dependencies
  ignored : p.ignored = ignoredRanges conditions
    ((groups.map (enrol job.dependencies)).filter fun g => g.hasMember p.name)
    (job.securityOnly || options.securityOnly) p.decision.dependency
  decision : p.decision = (decide? p.ignored options.minAge options.now p.decision.dependency
    (job.offeredFor p.name)).1

/-- **Every entry of a plan has come about in this way**, from the conditions and the groups that
the run has read. -/
theorem exists_entered (hrun : job.plan? options = .ok plan) {p : PlannedDependency}
    (hp : p ∈ plan.dependencies) :
    ∃ conditions groups, job.conditions? = .ok conditions ∧ job.groups? = .ok groups ∧
      plan.groups = (groups.map (enrol job.dependencies)).map (fun g =>
        ⟨g.name, g.targetsHighest, g.members.map Dependency.name⟩) ∧
      Entered job options conditions groups p := by
  obtain ⟨conditions, groups, hconditions, hgroups, rfl⟩ := plan?_eq_ok_iff.mp hrun
  refine ⟨conditions, groups, hconditions, hgroups, ?_, ?_⟩
  · rw [← groups_finished]
    rfl
  · obtain ⟨d, hd, rfl⟩ := exists_of_mem_planWith hp
    -- The entry for `d` is looked up by the dependency in its decision, which is `d` itself.
    have hdep := dependency_planFor job options conditions (finished groups job.dependencies) d
    refine ⟨hdep.symm ▸ hd, ?_, ?_⟩
    · rw [name_planFor, hdep, ← groups_finished]
      rfl
    · rw [name_planFor, hdep]
      rfl

namespace Entered

variable {conditions : List IgnoreCondition} {groups : List DependencyGroup}
  {p : PlannedDependency} (h : job.Entered options conditions groups p)
include h

/-- The ranges of a condition that applies are among those of the entry. -/
theorem mem_ignored_of_condition {c : IgnoreCondition} (hc : c ∈ conditions)
    (happlies : c.appliesTo p.name = true) {range : String}
    (hrange : range ∈ c.ignored p.decision.dependency (job.securityOnly || options.securityOnly)) :
    range ∈ p.ignored := by
  rw [h.ignored, mem_ignoredRanges]
  exact .inl ⟨c, hc, happlies, hrange⟩

/-- The ranges of a group that the dependency has joined are among those of the entry. -/
theorem mem_ignored_of_group {g : DependencyGroup} (hg : g ∈ groups)
    (hmember : (enrol job.dependencies g).hasMember p.name = true) {range : String}
    (hrange : range ∈ g.ignored p.decision.dependency) : range ∈ p.ignored := by
  rw [h.ignored, mem_ignoredRanges]
  refine .inr ⟨enrol job.dependencies g, ?_, ?_⟩
  · exact List.mem_filter.mpr ⟨List.mem_map_of_mem hg, hmember⟩
  · rw [ignored_enrol]
    exact hrange

/-- Where every range can be read, the decision is the selection. -/
theorem decision_eq_select {s : Selector}
    (hs : Selector.read? p.ignored options.minAge options.now = .ok s) :
    p.decision = s.select p.decision.dependency (job.offeredFor p.name) := by
  have hdecision := h.decision
  simp only [decide?, hs] at hdecision
  exact hdecision

theorem isUpdate_eq_false_of_read?_error {cause : PolicyFailure}
    (hs : Selector.read? p.ignored options.minAge options.now = .error cause) :
    p.isUpdate = false := by
  have hdecision := congrArg Decision.isUpdate h.decision
  simp only [decide?, hs] at hdecision
  exact hdecision

/-- An update is planned exactly if every range can be read and some candidate may be proposed and
is above the version in use. -/
theorem isUpdate_iff :
    p.isUpdate = true ↔
      ∃ s, Selector.read? p.ignored options.minAge options.now = .ok s ∧
        ∃ c ∈ job.offeredFor p.name, s.isEligible p.decision.dependency c = true ∧
          Selector.isAbove p.decision.dependency c = true := by
  cases hs : Selector.read? p.ignored options.minAge options.now with
  | error cause => simp [h.isUpdate_eq_false_of_read?_error hs]
  | ok s =>
    have hdecision := congrArg Decision.isUpdate (h.decision_eq_select hs)
    rw [PlannedDependency.isUpdate, hdecision, Selector.isUpdate_select_iff]
    constructor
    · intro hc
      exact ⟨s, rfl, hc⟩
    · rintro ⟨s', hs', hc⟩
      exact Except.ok.inj hs' ▸ hc

section Update

variable {d : Dependency} {w : String} {t : Option Instant} (hupdate : p.decision = .update d w t)
include hupdate

/-- A proposed version was offered and selected, all ranges having been read. -/
theorem exists_selected :
    ∃ s, Selector.read? p.ignored options.minAge options.now = .ok s ∧
      ⟨w, t⟩ ∈ job.offeredFor p.name ∧ s.isEligible d ⟨w, t⟩ = true ∧
        Selector.isAbove d ⟨w, t⟩ = true := by
  cases hs : Selector.read? p.ignored options.minAge options.now with
  | error cause =>
    have hfalse := h.isUpdate_eq_false_of_read?_error hs
    simp [PlannedDependency.isUpdate, hupdate, Decision.isUpdate] at hfalse
  | ok s =>
    have hselect := h.decision_eq_select hs
    rw [hupdate, Decision.dependency] at hselect
    exact ⟨s, rfl, Selector.of_select_update hselect.symm⟩

/-- **A proposed version is in none of the ranges of its entry**, all of which can be read. -/
theorem excludes {range : String} (hrange : range ∈ p.ignored) : Excludes range w := by
  obtain ⟨s, hs, -, helig, -⟩ := h.exists_selected hupdate
  exact Selector.not_admits_of_isEligible hs helig hrange

end Update

end Entered

end Job

end UpdatePlanner
