import UpdatePlanner.Proofs.Plan.Run
import UpdatePlanner.Proofs.Version.Slots

/-!
# Blanket conditions

A condition without ranges and kinds is meant to ignore every version. Its range is `>= 0`, and
some versions lie below zero: those with a word where a number would have to be above zero, as a
word stands below every number. Where such a version is in use, a later one may be proposed.

## Main results

* `Requirement.any_admits_iff`: the requirement `>= 0` admits the versions that are not below zero
* `Job.isUpdate_iff_of_blanket`: under a blanket condition exactly those below zero are proposed
-/

namespace UpdatePlanner

open Segment

/-! ## The range of all versions -/

namespace Requirement

theorem read?_allVersions : read? Range.allVersions = .ok any := rfl

/-- The requirement `>= 0` admits the versions that are not below zero. -/
theorem any_admits_iff {v : Version} : any.admits v = true ↔ ¬ BelowZero v.segments := by
  have hzero : zero.segments = [.number 0] ∧ zero.update = none := by with_unfolding_all decide
  have hadmits : any.admits v = (compare v zero).isGE := by
    simp [any, admits, boundedBelow, Operator.boundsBelow, Comparator.admits, Operator.relates]
  rw [hadmits, Version.isGE_iff_of_update_eq_none hzero.2, hzero.1, orderAll_zero, ne_eq,
    orderZeros_eq_lt_iff]

end Requirement

/-! ## Plans under a blanket condition -/

/-- A condition without ranges and kinds ignores the range of all versions where it counts. -/
theorem IgnoreCondition.ignored_of_blanket {c : IgnoreCondition} (hversions : c.versions = none)
    (hkinds : c.kinds = none) {securityOnly : Bool}
    (hmode : securityOnly = true → c.forSecurity = true) (d : Dependency) :
    c.ignored d securityOnly = [Range.allVersions] := by
  have hcounts : (securityOnly && !c.forSecurity) = false := by
    cases securityOnly with
    | false => rfl
    | true => simp [hmode rfl]
  simp [ignored, hversions, hkinds, hcounts]

namespace Job

variable {job : Job} {options : PlanOptions} {plan : Plan} {p : PlannedDependency}

/-- A candidate below zero that may be proposed meets a version in use below zero. -/
theorem exists_current_of_belowZero {s : Selector} {d : Dependency} {o : Candidate}
    (ho : BelowZero o.parsed.segments) (helig : s.isEligible d o = true)
    (habove : Selector.isAbove d o = true) :
    ∃ current, d.version = some current ∧ BelowZero (Version.read current).segments ∧
      Version.read current < o.parsed := by
  -- A version below zero is a pre-release, so one has to be in use.
  have hallows : Selector.allowsPrereleases d = true := by
    cases hd : Selector.allowsPrereleases d with
    | true => rfl
    | false =>
      have hnumeric := Selector.isNumeric_of_isEligible hd helig
      exact absurd (ho.all_isNumber.symm.trans hnumeric) Bool.false_ne_true
  rw [Selector.allowsPrereleases, Option.any_eq_true] at hallows
  obtain ⟨current, hcurrent, -⟩ := hallows
  have hlt : compare (Version.read current) o.parsed = .lt := by
    simpa [Selector.isAbove, hcurrent, Ordering.isLT_iff_eq_lt] using habove
  exact ⟨current, hcurrent, ho.of_isLE (Version.orderAll_isLE_of_lt hlt), hlt⟩

/-- **Under a blanket condition exactly the versions below zero are proposed**: where a version
below zero is in use, and a candidate that is above it and still below zero may be proposed as far
as the other ranges and the age go. All other versions are in the range of all versions. -/
theorem isUpdate_iff_of_blanket (hrun : job.plan? options = .ok plan)
    (hp : p ∈ plan.dependencies) {definition : ConditionDefinition}
    (hdefinition : definition ∈ job.conditions) {c : IgnoreCondition}
    (hc : definition.condition? = .ok c) (hversions : c.versions = none) (hkinds : c.kinds = none)
    (happlies : c.appliesTo p.name = true)
    (hmode : (job.securityOnly || options.securityOnly) = true → c.forSecurity = true) :
    (∀ text, Requirement.any.admits (Version.read text) = true ↔
      ¬ BelowZero (Version.read text).segments) ∧
      (p.isUpdate = true ↔
        ∃ s current, Selector.read? p.ignored options.minAge options.now = .ok s ∧
          p.decision.dependency.version = some current ∧
          BelowZero (Version.read current).segments ∧
          ∃ o ∈ job.offeredFor p.name, BelowZero o.parsed.segments ∧
            s.isEligible p.decision.dependency o = true ∧ Version.read current < o.parsed) := by
  constructor
  · intro text
    exact Requirement.any_admits_iff
  -- The condition that was read puts the range of all versions among those of the entry.
  obtain ⟨conditions, groups, hconditions, -, -, hentered⟩ := exists_entered hrun hp
  obtain ⟨c', hmem, hread⟩ := exists_mem_of_mapM hconditions hdefinition
  obtain rfl : c = c' := Except.ok.inj (hc.symm.trans hread)
  have hrange : Range.allVersions ∈ p.ignored := by
    apply hentered.mem_ignored_of_condition hmem happlies
    rw [IgnoreCondition.ignored_of_blanket hversions hkinds hmode]
    exact List.mem_singleton.mpr rfl
  rw [hentered.isUpdate_iff]
  constructor
  · rintro ⟨s, hs, o, ho, helig, habove⟩
    -- What may be proposed is not in that range, and therefore below zero.
    obtain ⟨q, hq, hnot⟩ := Selector.not_admits_of_isEligible hs helig hrange
    obtain rfl : Requirement.any = q :=
      Except.ok.inj (Requirement.read?_allVersions.symm.trans hq)
    have hbelow : BelowZero o.parsed.segments := by
      by_cases h : BelowZero o.parsed.segments
      · exact h
      · exact absurd (Requirement.any_admits_iff.mpr h) (by simp [hnot])
    obtain ⟨current, hcurrent, hzero, hlt⟩ := exists_current_of_belowZero hbelow helig habove
    exact ⟨s, current, hs, hcurrent, hzero, o, ho, hbelow, helig, hlt⟩
  · rintro ⟨s, current, hs, hcurrent, -, o, ho, -, helig, hlt⟩
    refine ⟨s, hs, o, ho, helig, ?_⟩
    rw [Selector.isAbove, hcurrent]
    exact Ordering.isLT_iff_eq_lt.mpr hlt

/-- A job whose only dependency uses a version with a name, under a blanket condition. -/
def namedJob : Job where
  securityOnly := false
  experiments := .none
  groups := []
  conditions := [⟨"spring-cloud", none, none, false⟩]
  entries := [⟨⟨"spring-cloud", some "Finchley.SR1", .maven, []⟩, [⟨"Finchley.SR3", none⟩]⟩]

/-- What is planned for its dependency. -/
def namedEntry : PlannedDependency :=
  ⟨[], [Range.allVersions],
    .update ⟨"spring-cloud", some "Finchley.SR1", .maven, []⟩ "Finchley.SR3" none⟩

/-- The plan for the job. -/
def namedPlan : Plan :=
  ⟨false, [], ["spring-cloud"], [namedEntry], []⟩

theorem run_namedJob : namedJob.plan? ⟨false, none, ⟨0, 0⟩⟩ = .ok namedPlan := by
  with_unfolding_all decide

theorem condition?_namedJob :
    (ConditionDefinition.condition? ⟨"spring-cloud", none, none, false⟩).map
      (fun c => (c.versions, c.kinds, c.appliesTo "spring-cloud")) = .ok (none, none, true) := by
  with_unfolding_all decide

/-- The blanket condition does not keep the update away. -/
theorem plan?_namedJob :
    namedJob.plan? ⟨false, none, ⟨0, 0⟩⟩ = .ok namedPlan ∧ namedEntry.isUpdate = true ∧
      (∀ definition ∈ namedJob.conditions,
        definition.condition?.map (fun c => (c.versions, c.kinds, c.appliesTo "spring-cloud")) =
          .ok (none, none, true)) ∧
      Requirement.any.admits (Version.read "Finchley.SR3") = false := by
  refine ⟨run_namedJob, rfl, ?_, by with_unfolding_all decide⟩
  intro definition hdefinition
  rw [List.mem_singleton.mp hdefinition]
  exact condition?_namedJob

theorem isUpdate_iff_of_blanket_namedJob :
    namedJob.plan? ⟨false, none, ⟨0, 0⟩⟩ = .ok namedPlan ∧ namedEntry ∈ namedPlan.dependencies ∧
      ∃ definition ∈ namedJob.conditions, ∃ c, definition.condition? = .ok c ∧
        c.versions = none ∧ c.kinds = none ∧ c.appliesTo namedEntry.name = true ∧
        ((false || false) = true → c.forSecurity = true) ∧
        (∀ text, Requirement.any.admits (Version.read text) = true ↔
          ¬ BelowZero (Version.read text).segments) ∧
        (namedEntry.isUpdate = true ↔
          ∃ s current, Selector.read? namedEntry.ignored none ⟨0, 0⟩ = .ok s ∧
            namedEntry.decision.dependency.version = some current ∧
            BelowZero (Version.read current).segments ∧
            ∃ o ∈ namedJob.offeredFor namedEntry.name, BelowZero o.parsed.segments ∧
              s.isEligible namedEntry.decision.dependency o = true ∧
              Version.read current < o.parsed) := by
  have hp : namedEntry ∈ namedPlan.dependencies := List.mem_singleton.mpr rfl
  have hdefinition : ⟨"spring-cloud", none, none, false⟩ ∈ namedJob.conditions :=
    List.mem_singleton.mpr rfl
  have hread := condition?_namedJob
  cases hc : ConditionDefinition.condition? ⟨"spring-cloud", none, none, false⟩ with
  | error cause => simp [hc, Except.map] at hread
  | ok c =>
    obtain ⟨hversions, hkinds, happlies⟩ :
        c.versions = none ∧ c.kinds = none ∧ c.appliesTo "spring-cloud" = true := by
      simpa [hc, Except.map] using hread
    have hmode : (false || false) = true → c.forSecurity = true := fun h => absurd h (by decide)
    exact ⟨run_namedJob, hp, _, hdefinition, c, hc, hversions, hkinds, happlies, hmode,
      isUpdate_iff_of_blanket run_namedJob hp hdefinition hc hversions hkinds happlies hmode⟩

end Job

end UpdatePlanner
