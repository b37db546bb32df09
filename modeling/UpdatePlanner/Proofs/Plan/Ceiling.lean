import UpdatePlanner.Proofs.Ignore.Ceiling
import UpdatePlanner.Proofs.Plan.Exclusion

/-!
# Plans under a ceiling

A dependency in a group with a ceiling is updated within its line: a minor ceiling keeps the first
number of its version, a patch ceiling the first two. This takes both that the ranges of larger
updates are kept away and that numbers alone are proposed where numbers alone are in use.

## Main results

* `Job.isNumber_of_update`: what is proposed for a plain version is plain, and above it
* `Job.not_spans_of_ceiling`: what is proposed is in none of the ranges above the ceiling
* `Job.slots_eq_of_ceiling`: updates under a ceiling stay in their line
-/

namespace UpdatePlanner

open Text Segment Version

namespace Job

section Update

variable {job : Job} {options : PlanOptions} {plan : Plan} {p : PlannedDependency}
  {d : Dependency} {w version : String} {t : Option Instant}
  (hrun : job.plan? options = .ok plan) (hp : p ∈ plan.dependencies)
  (hupdate : p.decision = .update d w t) (hversion : d.version = some version)
include hrun hp hupdate hversion

/-- What is proposed is above the version in use. -/
theorem lt_of_update : Version.read version < Version.read w := by
  obtain ⟨_, _, -, -, -, hentered⟩ := exists_entered hrun hp
  obtain ⟨_, -, -, -, habove⟩ := hentered.exists_selected hupdate
  rw [Selector.isAbove, hversion] at habove
  exact Ordering.isLT_iff_eq_lt.mp habove

/-- What is proposed where numbers alone are in use are numbers alone. -/
theorem isNumber_of_update (hnumeric : (Version.read version).isNumeric = true) :
    ∀ s ∈ (Version.read w).segments, s.isNumber = true := by
  obtain ⟨_, _, -, -, -, hentered⟩ := exists_entered hrun hp
  obtain ⟨_, -, -, helig, -⟩ := hentered.exists_selected hupdate
  have hallows : Selector.allowsPrereleases d = false := by
    simp [Selector.allowsPrereleases, hversion, isPrerelease, hnumeric]
  have hproposed := Selector.isNumeric_of_isEligible hallows helig
  rw [Candidate.parsed, isNumeric] at hproposed
  exact List.all_eq_true.mp hproposed

section Ceiling

variable {i : Nat} {definition : GroupDefinition} {group : PlannedGroup} {c : Ceiling}
  (hflag : job.experimentalRules = true) (hdefinition : job.groups[i]? = some definition)
  (hgroup : plan.groups[i]? = some group) (hmember : p.name ∈ group.members)
  (hceiling : definition.settings.highestAllowed = some c.name)
include hflag hdefinition hgroup hmember hceiling

/-- What is proposed is in none of the ranges above the ceiling. -/
theorem not_spans_of_ceiling {kind : UpdateKind} (hkind : kind ∈ c.kindsAbove) {r : Range}
    (hr : Range.ofKind kind version .unbounded = some r) : ¬ r.Spans (Version.read w).segments := by
  obtain ⟨g, group', hread, hgroup', hexcludes⟩ := excludes_of_group hrun hp hupdate hdefinition
  obtain rfl : group = group' := Option.some.inj (hgroup.symm.trans hgroup')
  -- With the flag of the job, the ceiling has the ranges of all later major lines.
  rw [PlannedDependency.name, Decision.name, hupdate] at hmember
  rw [hflag] at hread
  have hrange : r.render ∈ g.ignored d := by
    rw [DependencyGroup.ignored_of_ceiling hread hceiling hversion]
    exact IgnoreCondition.mem_kindRanges_iff.mpr ⟨kind, hkind, r, hr, rfl⟩
  obtain ⟨q, hq, hnot⟩ := hexcludes hmember _ hrange
  rw [← (Range.hasDottedEnds_of_ofKind hr).admits_iff_spans hq, hnot]
  exact Bool.false_ne_true

/-- **Updates under a ceiling stay in their line**: for a plain version, whatever its parts look
like, a minor ceiling keeps the first number, and a patch ceiling the first two. Numbers that are
absent count as zero. -/
theorem slots_eq_of_ceiling (hcapped : c ≠ .major) (hblank : ¬ AllBlank version.toList)
    (hnumeric : (Version.read version).isNumeric = true) :
    slot (Version.read w).segments 0 = slot (Version.read version).segments 0 ∧
      (c = .patch → slot (Version.read w).segments 1 = slot (Version.read version).segments 1) := by
  have hnum : ∀ s ∈ (Version.read version).segments, s.isNumber = true :=
    List.all_eq_true.mp hnumeric
  have hsegments := isNumber_of_update hrun hp hupdate hversion hnumeric
  have hle := orderAll_isLE_of_lt (lt_of_update hrun hp hupdate hversion)
  have hmajor : .major ∈ c.kindsAbove := by
    cases c with
    | major => exact absurd rfl hcapped
    | minor => exact List.mem_cons_self
    | patch => exact List.mem_cons_self
  -- As numbers alone, the segments of the version in use are those of its parts.
  obtain ⟨part, parts, hparts, hmark, hscan⟩ := (aligned_read hblank).exists_parts_of_isNumber hnum
  obtain ⟨r, hr⟩ := Range.exists_major_unbounded hparts
  have hspans := not_spans_of_ceiling hrun hp hupdate hversion hflag hdefinition hgroup hmember
    hceiling hmajor hr
  obtain ⟨hzero, n, hraise, hpart⟩ :=
    Range.slot_zero_of_not_spans_major hparts hmark hscan hnum hsegments hle hr hspans
  -- The first number is settled for either ceiling, and only the other one says more.
  refine ⟨hzero, ?_⟩
  rintro rfl
  -- A patch ceiling rules out the later minor lines, too.
  have hminor : .minor ∈ Ceiling.patch.kindsAbove := by decide
  obtain ⟨r', hr'⟩ := Range.exists_minor hparts
  have hspans' := not_spans_of_ceiling hrun hp hupdate hversion hflag hdefinition hgroup hmember
    hceiling hminor hr'
  rw [hscan, hpart, List.singleton_append, slot_cons_zero] at hzero
  exact Range.slot_one_of_not_spans_minor hparts hmark hscan hnum hsegments hle hraise hpart
    (segments_read_ne_nil w) hzero hr' hspans'

end Ceiling

end Update

/-- The version in use is `1.2-3`, the ceiling is for patches, and `1.2-3.0.1` is proposed. -/
theorem slots_eq_of_ceiling_cappedJob :
    cappedJob.plan? ⟨false, none, ⟨0, 0⟩⟩ = .ok cappedPlan ∧
      cappedEntry ∈ cappedPlan.dependencies ∧ cappedJob.experimentalRules = true ∧
      "rails" ∈ (⟨"web", false, ["rails"]⟩ : PlannedGroup).members ∧
      ¬ AllBlank "1.2-3".toList ∧ (Version.read "1.2-3").isNumeric = true ∧
      slot (Version.read "1.2-3.0.1").segments 0 = slot (Version.read "1.2-3").segments 0 ∧
      (Ceiling.patch = .patch →
        slot (Version.read "1.2-3.0.1").segments 1 = slot (Version.read "1.2-3").segments 1) := by
  have hp : cappedEntry ∈ cappedPlan.dependencies := List.mem_singleton.mpr rfl
  have hupdate : cappedEntry.decision =
      .update ⟨"rails", some "1.2-3", .bundler, []⟩ "1.2-3.0.1" none := rfl
  have hflag : cappedJob.experimentalRules = true := Experiments.isEnabled_register_self ..
  have hdefinition : cappedJob.groups[0]? =
      some ⟨"web", ⟨some ["ra*"], none, none, some Ceiling.patch.name⟩⟩ := rfl
  have hgroup : cappedPlan.groups[0]? = some ⟨"web", false, ["rails"]⟩ := rfl
  have hmember : cappedEntry.name ∈ (⟨"web", false, ["rails"]⟩ : PlannedGroup).members :=
    List.mem_singleton.mpr rfl
  have hblank : ¬ AllBlank "1.2-3".toList := fun h => absurd (h '1' (by simp)) (by decide)
  have hnumeric : (Version.read "1.2-3").isNumeric = true := by with_unfolding_all decide
  exact ⟨plan?_cappedJob, hp, hflag, hmember, hblank, hnumeric,
    slots_eq_of_ceiling plan?_cappedJob hp hupdate rfl hflag hdefinition hgroup hmember rfl
      (by decide) hblank hnumeric⟩

end Job

end UpdatePlanner
