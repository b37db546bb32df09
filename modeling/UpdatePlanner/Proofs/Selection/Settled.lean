import UpdatePlanner.Proofs.Selection.Selected

/-!
# Selecting again

A dependency that was moved to the proposed version is offered the same candidates the next time.
The version in use decides whether pre-releases may be proposed, so other candidates may be proposed
now than before: fewer where a pre-release gave way to a release, and never more, since a pre-release
is only proposed where one was in use. The proposed candidate is still among them, and what was not
above it then is not above it now, so nothing is left to do.

## Main definitions

* `Dependency.movedTo d w`: the dependency with another version in use

## Main results

* `Selector.isEligible_of_allows_imp`: where pre-releases are allowed, no fewer candidates may be
  proposed
* `Selector.select_eq_alreadyLatest`: when a dependency is at its latest version
* `Selector.select_movedTo`: after an update the dependency is at its latest version
-/

namespace UpdatePlanner

/-- The dependency with another version in use. -/
def Dependency.movedTo (d : Dependency) (version : String) : Dependency :=
  { d with version := some version }

namespace Selector

variable {s : Selector} {d d' : Dependency} {offered : List Candidate} {c : Candidate} {w : String}
  {t : Option Instant}

/-- The version in use counts for nothing but whether pre-releases are allowed, and where they are
no fewer candidates may be proposed. -/
theorem isEligible_of_allows_imp
    (hallows : allowsPrereleases d' = true → allowsPrereleases d = true)
    (h : s.isEligible d' c = true) : s.isEligible d c = true := by
  rw [isEligible_iff, isSuitable, Bool.and_eq_true, Bool.or_eq_true] at h ⊢
  exact ⟨h.1, h.2.1.imp_left hallows, h.2.2⟩

/-- **A dependency is at its latest version** if some candidate may be proposed and none of those is
above the version in use. -/
theorem select_eq_alreadyLatest (hmem : c ∈ offered) (helig : s.isEligible d c = true)
    (hnone : ∀ e ∈ offered, s.isEligible d e = true → isAbove d e = false) :
    s.select d offered = .skip d .alreadyLatest := by
  obtain ⟨best, hbest, -⟩ := exists_highest?_of_isEligible hmem helig
  obtain ⟨hmem', helig'⟩ := List.mem_filter.mp (Candidate.mem_of_highest? hbest)
  rw [select_of_highest? hbest, hnone best hmem' helig']
  rfl

/-! ## After an update -/

/-- After an update, pre-releases are allowed exactly if one was proposed. -/
theorem allowsPrereleases_movedTo (d : Dependency) (w : String) (t : Option Instant) :
    allowsPrereleases (d.movedTo w) = (Candidate.mk w t).isPrerelease := rfl

/-- After an update, the candidates above the version in use are those above the proposed one. -/
theorem isAbove_movedTo (d : Dependency) (w : String) (t : Option Instant) (c : Candidate) :
    isAbove (d.movedTo w) c = (compare (Candidate.mk w t).parsed c.parsed).isLT := rfl

section Proposed

variable (helig : s.isEligible d ⟨w, t⟩ = true)
include helig

/-- After an update to a candidate that might be proposed, no other candidates may be proposed than
before it. -/
theorem isEligible_of_movedTo (h : s.isEligible (d.movedTo w) c = true) :
    s.isEligible d c = true := by
  refine isEligible_of_allows_imp ?_ h
  intro hpre
  -- The proposed version is a pre-release, which it only may be where one was in use.
  rw [allowsPrereleases_movedTo d w t] at hpre
  rw [isEligible_iff, isSuitable, hpre, Bool.and_eq_true] at helig
  simpa using helig.2.1

/-- After an update, the proposed candidate may still be proposed. -/
theorem isEligible_movedTo : s.isEligible (d.movedTo w) ⟨w, t⟩ = true := by
  rw [isEligible_iff, isSuitable, allowsPrereleases_movedTo d w t]
  rw [isEligible_iff, isSuitable, Bool.and_eq_true] at helig
  -- It is a pre-release or it is none, and either way it is allowed.
  rw [Bool.or_not_self, Bool.true_and]
  exact ⟨helig.1, helig.2.2⟩

end Proposed

/-- **After an update the dependency is at its latest version**: among the same candidates, nothing
is proposed for the proposed version, be it a pre-release, a release in place of one, or the first
version in use. -/
theorem select_movedTo (h : s.select d offered = .update d' w t) :
    s.select (d.movedTo w) offered = .skip (d.movedTo w) .alreadyLatest := by
  obtain ⟨hbest, -⟩ := highest?_of_select_update h
  obtain ⟨hmem, helig, -⟩ := of_select_update h
  refine select_eq_alreadyLatest hmem (isEligible_movedTo helig) ?_
  intro e he helige
  -- What may be proposed now might be proposed then, and was not above the highest candidate.
  have hfilter : e ∈ offered.filter (s.isEligible d) :=
    List.mem_filter.mpr ⟨he, isEligible_of_movedTo helig helige⟩
  have hle := Candidate.isLE_parsed (Candidate.isLE_of_highest? hbest e hfilter)
  rw [isAbove_movedTo d w t, Bool.eq_false_iff, ne_eq, Ordering.isLT_iff_eq_lt]
  intro hlt
  rw [Std.OrientedCmp.gt_of_lt hlt] at hle
  cases hle

/-- A selector that waits for a day. -/
def patientSelector : Selector := ⟨[], some 86400, ⟨1000000, 0⟩⟩

/-- The dependency with a pre-release in use. -/
def prereleaseDependency : Dependency := ⟨"rack", some "2.0.0-rc.1", .bundler, []⟩

/-- Releases that are equal in version and differ in their texts, one of them given twice, a
pre-release below them, and a release that is too recent. -/
def equalReleases : List Candidate :=
  [⟨"2.0.0", none⟩, ⟨"2.0.0-rc.2", none⟩, ⟨"2.0", none⟩, ⟨"2.0.0", some ⟨500000, 0⟩⟩,
    ⟨"2.0.1", some ⟨999999, 0⟩⟩]

/-- From the pre-release on, `2.0.0` is proposed, and then nothing is. -/
theorem select_movedTo_prereleaseDependency :
    patientSelector.select prereleaseDependency equalReleases =
        .update prereleaseDependency "2.0.0" (some ⟨500000, 0⟩) ∧
      patientSelector.select (prereleaseDependency.movedTo "2.0.0") equalReleases =
        .skip (prereleaseDependency.movedTo "2.0.0") .alreadyLatest := by
  have hupdate : patientSelector.select prereleaseDependency equalReleases =
      .update prereleaseDependency "2.0.0" (some ⟨500000, 0⟩) := by with_unfolding_all decide
  exact ⟨hupdate, select_movedTo hupdate⟩

end Selector

end UpdatePlanner
