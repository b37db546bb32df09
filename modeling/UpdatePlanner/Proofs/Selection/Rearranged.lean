import Mathlib.Data.List.Nodup
import UpdatePlanner.Proofs.Selection.Outcome

/-!
# Selecting from rearranged lists

The candidates of a dependency and the ranges it ignores come in lists, and their order means
nothing. What an answer stands for only asks which candidates and which ranges there are, so it is
carried over to lists with the same members, and the answers of both selections stand for the same.
Two candidates that are both the highest are equal in version and in text, `1.2` and `1.2.0` being
told apart by their texts; so the same version is proposed. Where a version is offered twice with
different dates, the order decides which of them is named, and nowhere else.

## Main definitions

* `Selector.Alike s s'`: two selectors ignore the same ranges and wait for the same age

## Main results

* `Selector.Outcome.rearrange`: an outcome is one of rearranged lists
* `Selector.Outcome.newVersion?_eq`: the outcomes of a selection propose the same version
* `Selector.select_rearranged`: selecting from rearranged lists
-/

namespace UpdatePlanner

theorem Decision.isUpdate_eq (r : Decision) : r.isUpdate = r.skipReason?.isNone := by
  cases r <;> rfl

namespace Selector

/-- Two selectors that ignore the same ranges, in whatever order and however often, and wait for
the same age. -/
structure Alike (s s' : Selector) : Prop where
  ignored : ∀ q, q ∈ s'.ignored ↔ q ∈ s.ignored
  minAge : s'.minAge = s.minAge
  now : s'.now = s.now

section Rearrange

variable {s s' : Selector} {d : Dependency} {offered offered' : List Candidate}

namespace Alike

variable (h : s.Alike s')
include h

theorem ignores_eq (v : Version) : s'.ignores v = s.ignores v := by
  rw [Bool.eq_iff_iff, ignores, ignores, List.any_eq_true, List.any_eq_true]
  simp only [h.ignored]

theorem isEligible_eq (c : Candidate) : s'.isEligible d c = s.isEligible d c := by
  simp only [isEligible, isSuitable, cutoff, h.ignores_eq, h.minAge, h.now]

/-- From the same list of candidates, both selectors select the same. -/
theorem select_eq : s'.select d offered = s.select d offered := by
  have heligible : s'.isEligible d = s.isEligible d := funext fun c => h.isEligible_eq c
  simp only [select, h.ignores_eq, heligible]

theorem inIgnored_iff (c : Candidate) : s'.InIgnored c ↔ s.InIgnored c := by
  simp only [InIgnored, h.ignored]

theorem proposable_iff (c : Candidate) : s'.Proposable d c ↔ s.Proposable d c := by
  constructor
  · rintro ⟨hignored, hprerelease, hreleased⟩
    rw [h.minAge, h.now] at hreleased
    exact ⟨(h.inIgnored_iff c).not.mp hignored, hprerelease, hreleased⟩
  · rintro ⟨hignored, hprerelease, hreleased⟩
    rw [← h.minAge, ← h.now] at hreleased
    exact ⟨(h.inIgnored_iff c).not.mpr hignored, hprerelease, hreleased⟩

end Alike

/-- **An outcome is one of rearranged lists**, as it only speaks of their members. -/
theorem Outcome.rearrange {r : Decision} (h : s.Outcome d offered r) (hs : s.Alike s')
    (hoffered : ∀ c, c ∈ offered' ↔ c ∈ offered) : s'.Outcome d offered' r := by
  have hnil : offered' = [] ↔ offered = [] := by
    simp only [List.eq_nil_iff_forall_not_mem, hoffered]
  cases h with
  | nothingOffered h => exact .nothingOffered (hnil.mpr h)
  | allIgnored hne hall =>
    refine .allIgnored (hnil.not.mpr hne) ?_
    intro c hc
    exact (hs.inIgnored_iff c).mpr (hall c ((hoffered c).mp hc))
  | nothingSuitable hleft hnone =>
    refine .nothingSuitable ?_ ?_
    · obtain ⟨c, hc, hignored⟩ := hleft
      exact ⟨c, (hoffered c).mpr hc, (hs.inIgnored_iff c).not.mpr hignored⟩
    · intro c hc
      exact (hs.proposable_iff c).not.mpr (hnone c ((hoffered c).mp hc))
  | alreadyLatest hsome hnone =>
    refine .alreadyLatest ?_ ?_
    · obtain ⟨c, hc, hprop⟩ := hsome
      exact ⟨c, (hoffered c).mpr hc, (hs.proposable_iff c).mpr hprop⟩
    · intro c hc hprop
      exact hnone c ((hoffered c).mp hc) ((hs.proposable_iff c).mp hprop)
  | update hmem hprop hnewer hbest =>
    refine .update ((hoffered _).mpr hmem) ((hs.proposable_iff _).mpr hprop) hnewer ?_
    intro c hc hpropc
    exact hbest c ((hoffered c).mp hc) ((hs.proposable_iff c).mp hpropc)

end Rearrange

/-! ## Two outcomes of one selection -/

section Outcomes

variable {s : Selector} {d : Dependency} {offered : List Candidate} {r r' : Decision}
  (h : s.Outcome d offered r) (h' : s.Outcome d offered r')
include h h'

/-- **The outcomes of a selection propose the same version.** -/
theorem Outcome.newVersion?_eq : r.newVersion? = r'.newVersion? := by
  have hreason := h.skipReason?_eq h'
  cases h with
  | update hmem hprop hnewer hbest =>
    cases h' with
    | update hmem' hprop' hnewer' hbest' =>
      -- Each of the two candidates is a highest one.
      exact congrArg some
        (Candidate.version_eq_of_isLE (hbest' _ hmem hprop) (hbest _ hmem' hprop'))
    | _ => cases hreason
  | _ => cases h' with
    | update => cases hreason
    | _ => rfl

/-- If no version is offered twice, a selection has one outcome. -/
theorem Outcome.unique (hdistinct : (offered.map Candidate.version).Nodup) : r = r' := by
  have hreason := h.skipReason?_eq h'
  have hversion := h.newVersion?_eq h'
  cases h with
  | update hmem =>
    cases h' with
    | update hmem' =>
      obtain rfl := List.inj_on_of_nodup_map hdistinct hmem hmem' (Option.some.inj hversion)
      rfl
    | _ => cases hreason
  | _ => cases h' <;> first | rfl | cases hreason

end Outcomes

/-! ## Rearranged ranges and candidates -/

/-- From ranges with the same members, a selector is read that goes by the same. -/
theorem exists_read?_alike {ranges ranges' : List String} {minAge : Option Duration}
    {now : Instant} {s : Selector} (h : read? ranges minAge now = .ok s)
    (hranges : ∀ range, range ∈ ranges' ↔ range ∈ ranges) :
    ∃ s', read? ranges' minAge now = .ok s' ∧ s.Alike s' := by
  obtain ⟨s', hread', -⟩ := exists_read?_of_subset h fun range => (hranges range).mp
  refine ⟨s', hread', ?_⟩
  obtain ⟨ignored, hm, rfl⟩ := read?_eq_ok_iff.mp h
  obtain ⟨ignored', hm', rfl⟩ := read?_eq_ok_iff.mp hread'
  refine ⟨?_, rfl, rfl⟩
  intro q
  simp only [mem_iff_of_mapM hm, mem_iff_of_mapM hm', hranges]

/-- **Selecting from rearranged lists**: if ranges can be read, so can the same ranges in another
order or repeated, and for the same candidates in another order the answer is of the same kind,
proposes the same version and gives the same reason. If no version is offered twice, it is the
same answer. -/
theorem select_rearranged {ranges ranges' : List String} {minAge : Option Duration}
    {now : Instant} {s : Selector} (hread : read? ranges minAge now = .ok s)
    (hranges : ∀ range, range ∈ ranges' ↔ range ∈ ranges) (d : Dependency)
    {offered offered' : List Candidate} (hoffered : offered'.Perm offered) :
    ∃ s', read? ranges' minAge now = .ok s' ∧
      (s'.select d offered').isUpdate = (s.select d offered).isUpdate ∧
      (s'.select d offered').newVersion? = (s.select d offered).newVersion? ∧
      (s'.select d offered').skipReason? = (s.select d offered).skipReason? ∧
      ((offered.map Candidate.version).Nodup →
        s'.select d offered' = s.select d offered) := by
  obtain ⟨s', hread', hs⟩ := exists_read?_alike hread hranges
  -- What is answered to the one stands for the other as well.
  have hout := outcome_select s' d offered'
  have hrearranged : s'.Outcome d offered' (s.select d offered) :=
    (outcome_select s d offered).rearrange hs fun c => hoffered.mem_iff
  have hreason := hout.skipReason?_eq hrearranged
  refine ⟨s', hread', ?_, hout.newVersion?_eq hrearranged, hreason, ?_⟩
  · rw [Decision.isUpdate_eq, Decision.isUpdate_eq, hreason]
  · intro hdistinct
    have hdistinct' : (offered'.map Candidate.version).Nodup :=
      (hoffered.map Candidate.version).nodup_iff.mpr hdistinct
    exact hout.unique hrearranged hdistinct'

/-- A selector that ignores everything but the line `1`. -/
def firstLineSelector : Selector :=
  ⟨[⟨[⟨.atLeast, Version.read "2"⟩]⟩, ⟨[⟨.less, Version.read "1"⟩]⟩], none, ⟨0, 0⟩⟩

def firstLineDependency : Dependency := ⟨"rack", some "1.0", .bundler, []⟩

/-- Candidates that are equal in version and differ in their texts, and one out of the line. -/
def tiedCandidates : List Candidate :=
  [⟨"1.2", none⟩, ⟨"1.2.0", some ⟨0, 0⟩⟩, ⟨"2.0", none⟩]

/-- The same candidates, one of them given twice. -/
def repeatedCandidates : List Candidate :=
  ⟨"1.2.0", none⟩ :: tiedCandidates

theorem select_rearranged_firstLineSelector :
    read? [">= 2", "< 1"] none ⟨0, 0⟩ = .ok firstLineSelector ∧
      ∃ s', read? ["< 1", ">= 2", "< 1"] none ⟨0, 0⟩ = .ok s' ∧
        (s'.select firstLineDependency repeatedCandidates.reverse).newVersion? = some "1.2.0" ∧
        s'.select firstLineDependency tiedCandidates.reverse =
          .update firstLineDependency "1.2.0" (some ⟨0, 0⟩) := by
  have hread : read? [">= 2", "< 1"] none ⟨0, 0⟩ = .ok firstLineSelector := rfl
  have hranges : ∀ range, range ∈ ["< 1", ">= 2", "< 1"] ↔ range ∈ [">= 2", "< 1"] := by
    intro range
    simp only [List.mem_cons, List.not_mem_nil, or_false]
    tauto
  obtain ⟨s', hread', -, hversion, -⟩ := select_rearranged hread hranges firstLineDependency
    (List.reverse_perm repeatedCandidates)
  obtain ⟨s'', hread'', -, -, -, hselect⟩ := select_rearranged hread hranges firstLineDependency
    (List.reverse_perm tiedCandidates)
  obtain rfl : s' = s'' := Except.ok.inj (hread'.symm.trans hread'')
  refine ⟨hread, s', hread', ?_, ?_⟩
  · rw [hversion]
    with_unfolding_all decide
  · rw [hselect (by decide)]
    with_unfolding_all decide

end Selector

end UpdatePlanner
