import UpdatePlanner.Proofs.Plan.ByRules
import UpdatePlanner.Proofs.Plan.Exclusion

/-!
# Tighter policies

A policy becomes tighter by further conditions, by ceilings that are switched on, and where a run
that makes security updates alone is followed by one that makes all updates, as then more of the
conditions count. Each of this adds ranges and takes none away, so no dependency is moved to a
higher version than before, and none is moved that was left alone.

## Main definitions

* `Job.Tightening job options job' options'`: the second run goes by a tighter policy

## Main results

* `Job.Tightening.ignoredRanges_subset`: the ranges of a dependency are among those under the tighter policy
* `Job.not_raised_of_tightening`: a tighter policy raises no proposal
-/

namespace UpdatePlanner

open Assignment

/-- A run for all updates counts no fewer conditions than one for security updates alone. -/
theorem IgnoreCondition.ignored_subset_of_mode (c : IgnoreCondition) (d : Dependency)
    {securityOnly securityOnly' : Bool} (h : securityOnly' = true → securityOnly = true) :
    c.ignored d securityOnly ⊆ c.ignored d securityOnly' := by
  unfold ignored
  cases c.versions with
  | some versions => exact List.Subset.refl _
  | none =>
    cases securityOnly with
    | false =>
      have hmode : securityOnly' = false := by simpa using h
      rw [hmode]
      exact List.Subset.refl _
    | true =>
      by_cases hsecurity : c.forSecurity = true
      · simp [hsecurity]
      · simp [hsecurity]

namespace Job

variable {job job' : Job} {options options' : PlanOptions} {plan plan' : Plan}

/-- The second run goes by a tighter policy: on the same entries and groups, at the same time and
age, with conditions added, with ceilings switched on, or for all updates instead of security
updates alone. -/
structure Tightening (job : Job) (options : PlanOptions) (job' : Job) (options' : PlanOptions) :
    Prop where
  entries : job.entries = job'.entries
  groups : job.groups = job'.groups
  conditions : job.conditions.Sublist job'.conditions
  rules : job.experimentalRules = true → job'.experimentalRules = true
  security : (job'.securityOnly || options'.securityOnly) = true →
    (job.securityOnly || options.securityOnly) = true
  minAge : options.minAge = options'.minAge
  now : options.now = options'.now

namespace Tightening

variable (h : Tightening job options job' options')
include h

theorem dependencies_eq : job.dependencies = job'.dependencies := by
  rw [dependencies, dependencies, h.entries]

theorem mem_conditions {conditions conditions' : List IgnoreCondition}
    (hconditions : job.conditions? = .ok conditions)
    (hconditions' : job'.conditions? = .ok conditions') {c : IgnoreCondition}
    (hc : c ∈ conditions) : c ∈ conditions' := by
  obtain ⟨definition, hdefinition, hread⟩ := exists_mem_of_mem_mapM hconditions hc
  obtain ⟨c', hc', hread'⟩ := exists_mem_of_mapM hconditions' (h.conditions.mem hdefinition)
  obtain rfl : c = c' := Except.ok.inj (hread.symm.trans hread')
  exact hc'

/-- **The ranges of a dependency are among those under the tighter policy.** -/
theorem ignoredRanges_subset {conditions conditions' : List IgnoreCondition}
    {groups groups' : List DependencyGroup} (hconditions : job.conditions? = .ok conditions)
    (hconditions' : job'.conditions? = .ok conditions') (hgroups : job.groups? = .ok groups)
    (hgroups' : job'.groups? = .ok groups') (d : Dependency) :
    ignoredRanges conditions (groups.filter fun g => g.admitsNamed job.dependencies d.name)
        (job.securityOnly || options.securityOnly) d ⊆
      ignoredRanges conditions' (groups'.filter fun g => g.admitsNamed job'.dependencies d.name)
        (job'.securityOnly || options'.securityOnly) d := by
  intro range hrange
  rw [mem_ignoredRanges] at hrange ⊢
  rcases hrange with ⟨c, hc, happlies, hrange⟩ | ⟨g, hg, hrange⟩
  · -- A condition that applies is one of the second run, and counts there, too.
    refine .inl ⟨c, ?_, happlies, ?_⟩
    · exact h.mem_conditions hconditions hconditions' hc
    · exact c.ignored_subset_of_mode d h.security hrange
  · -- A joined group is one of the second run but for the switch, and is joined there, too.
    obtain ⟨hmem, hadmits⟩ := List.mem_filter.mp hg
    obtain ⟨definition, -, hread⟩ := exists_mem_of_mem_mapM hgroups hmem
    obtain rfl := Except.ok.inj (hgroups'.symm.trans (groups?_eq_ok_map h.groups hgroups))
    refine .inr ⟨g.withExperimental job'.experimentalRules, List.mem_filter.mpr ⟨?_, ?_⟩, ?_⟩
    · exact List.mem_map_of_mem hmem
    · rw [← h.dependencies_eq]
      exact hadmits
    · apply DependencyGroup.ignored_withExperimental_subset ?_ d hrange
      obtain ⟨rules, included, excluded, -, -, -, rfl⟩ := DependencyGroup.read?_eq_ok_iff.mp hread
      exact h.rules

/-- **A tighter policy raises no proposal** for a dependency. -/
theorem exists_planFor_update {conditions conditions' : List IgnoreCondition}
    {groups groups' : List DependencyGroup} (hconditions : job.conditions? = .ok conditions)
    (hconditions' : job'.conditions? = .ok conditions') (hgroups : job.groups? = .ok groups)
    (hgroups' : job'.groups? = .ok groups') {d d' : Dependency} {w' : String}
    {t' : Option Instant}
    (hupdate : (job'.planFor options' conditions'
      (finished groups' job'.dependencies) d).1.decision = .update d' w' t') :
    ∃ w t, (job.planFor options conditions (finished groups job.dependencies) d).1.decision =
        .update d w t ∧ (compare (Candidate.mk w' t') ⟨w, t⟩).isLE = true := by
  rw [planFor_finished (members_of_groups? hgroups')] at hupdate
  rw [planFor_finished (members_of_groups? hgroups)]
  have hoffered : job.offeredFor d.name = job'.offeredFor d.name := by
    rw [offeredFor, offeredFor, h.entries]
  have hsubset := h.ignoredRanges_subset hconditions hconditions' hgroups hgroups' d
  dsimp only at hupdate ⊢
  rw [decide?] at hupdate
  rw [decide?, hoffered, h.minAge, h.now]
  -- All ranges of the second run can be read, and so the fewer ones of the first can.
  split at hupdate
  · next s' hs' =>
    obtain ⟨s, hs, himp⟩ := Selector.exists_read?_of_subset hs' hsubset
    rw [hs]
    exact Selector.exists_select_of_isEligible_imp (himp d) hupdate
  · cases hupdate

end Tightening

/-- **A tighter policy raises no proposal.** Place by place the ranges of an entry are among those
under the tighter policy, and where that still plans an update, the first run plans one to the same
version or a higher one. -/
theorem not_raised_of_tightening (h : Tightening job options job' options')
    (hrun : job.plan? options = .ok plan) (hrun' : job'.plan? options' = .ok plan') :
    plan.dependencies.length = plan'.dependencies.length ∧
      ∀ (i : Nat) (p p' : PlannedDependency), plan.dependencies[i]? = some p →
        plan'.dependencies[i]? = some p' →
          p.ignored ⊆ p'.ignored ∧
            ∀ d w' t', p'.decision = .update d w' t' →
              ∃ w t, p.decision = .update d w t ∧
                (compare (Candidate.mk w' t') ⟨w, t⟩).isLE = true := by
  obtain ⟨conditions, groups, hconditions, hgroups, rfl⟩ := plan?_eq_ok_iff.mp hrun
  obtain ⟨conditions', groups', hconditions', hgroups', rfl⟩ := plan?_eq_ok_iff.mp hrun'
  refine ⟨by simp [planWith, h.dependencies_eq], ?_⟩
  intro i p p' hp hp'
  obtain ⟨d, hd, rfl⟩ := exists_of_getElem?_planWith hp
  obtain ⟨d', hd', rfl⟩ := exists_of_getElem?_planWith hp'
  -- Both entries are for the dependency at that place.
  obtain rfl : d = d' := by
    rw [h.dependencies_eq, hd', Option.some.injEq] at hd
    exact hd.symm
  constructor
  · rw [planFor_finished (members_of_groups? hgroups),
      planFor_finished (members_of_groups? hgroups')]
    exact h.ignoredRanges_subset hconditions hconditions' hgroups hgroups' d
  · intro e w' t' hupdate
    obtain rfl : d = e := eq_of_planFor_update hupdate
    exact h.exists_planFor_update hconditions hconditions' hgroups hgroups' hupdate

/-- The job with a ceiling and a condition, without either: the experimental rules are off, and only
security updates are made. -/
def looseJob : Job :=
  { cappedJob with securityOnly := true, experiments := .none, conditions := [] }

/-- What is planned for its dependency. -/
def looseEntry : PlannedDependency :=
  ⟨["web"], [], .update ⟨"rails", some "1.2-3", .bundler, []⟩ "2.0.0" none⟩

/-- The plan for the job. -/
def loosePlan : Plan :=
  ⟨true, [⟨"web", true, ["rails"]⟩], [], [looseEntry], []⟩

/-- Under the tighter policy `1.2-3.0.1` is proposed instead of `2.0.0`. -/
theorem not_raised_of_tightening_looseJob :
    Tightening looseJob ⟨false, none, ⟨0, 0⟩⟩ cappedJob ⟨false, none, ⟨0, 0⟩⟩ ∧
      looseJob.plan? ⟨false, none, ⟨0, 0⟩⟩ = .ok loosePlan ∧
      cappedJob.plan? ⟨false, none, ⟨0, 0⟩⟩ = .ok cappedPlan ∧
      loosePlan.dependencies[0]? = some looseEntry ∧
      cappedPlan.dependencies[0]? = some cappedEntry ∧
      looseEntry.ignored ⊆ cappedEntry.ignored ∧
      ∃ w t, looseEntry.decision = .update ⟨"rails", some "1.2-3", .bundler, []⟩ w t ∧
        (compare (Candidate.mk "1.2-3.0.1" none) ⟨w, t⟩).isLE = true := by
  have htighter : Tightening looseJob ⟨false, none, ⟨0, 0⟩⟩ cappedJob ⟨false, none, ⟨0, 0⟩⟩ :=
    { entries := rfl, groups := rfl, conditions := List.nil_sublist _
      rules := fun hrules => absurd hrules (by decide)
      security := fun _ => rfl
      minAge := rfl, now := rfl }
  have hrun : looseJob.plan? ⟨false, none, ⟨0, 0⟩⟩ = .ok loosePlan := by
    with_unfolding_all decide
  obtain ⟨-, hplans⟩ := not_raised_of_tightening htighter hrun plan?_cappedJob
  obtain ⟨hsubset, hraised⟩ := hplans 0 looseEntry cappedEntry rfl rfl
  exact ⟨htighter, hrun, plan?_cappedJob, rfl, rfl, hsubset, hraised _ _ _ rfl⟩

end Job

end UpdatePlanner
