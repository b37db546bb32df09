import UpdatePlanner.Proofs.Traversal
import UpdatePlanner.Proofs.Version.Order
import UpdatePlanner.Selection.Selector

/-!
# The selected candidate

## Main results

* `Candidate.isLE_of_highest?`: no candidate is above the highest one
* `Selector.of_select_update`: what is proposed is offered, may be proposed and is above
  the version in use
* `Selector.isUpdate_select_iff`: an update is made exactly if some candidate is all that
* `Selector.exists_select_of_isEligible_imp`: where more may be proposed, nothing lower is
* `Selector.not_admits_of_isEligible`: what may be proposed is in none of the ignored ranges
-/

namespace UpdatePlanner

/-! ## The highest candidate -/

namespace Candidate

theorem isLE_higher_left (c d : Candidate) : (compare c (higher c d)).isLE = true := by
  unfold higher
  split
  · exact Std.ReflCmp.isLE_rfl
  · next h =>
    rw [Std.OrientedOrd.eq_swap (a := d)] at h
    cases ho : compare c d with
    | lt => rfl
    | eq => rfl
    | gt => simp [ho] at h

theorem isLE_higher_right (c d : Candidate) : (compare d (higher c d)).isLE = true := by
  unfold higher
  split
  · next h =>
    rw [Ordering.isLT_iff_eq_lt.mp h]
    rfl
  · exact Std.ReflCmp.isLE_rfl

/-- What the search starts from and what it passes are not above what it ends with. -/
theorem isLE_foldl_higher (cs : List Candidate) (c : Candidate) :
    ∀ d ∈ c :: cs, (compare d (cs.foldl higher c)).isLE = true := by
  -- By induction on the candidates left, for every best candidate so far.
  induction cs generalizing c with
  | nil => simp
  | cons e es ih =>
    have hrest := List.forall_mem_cons.mp (ih (higher c e))
    rw [List.foldl_cons, List.forall_mem_cons, List.forall_mem_cons]
    exact ⟨Std.TransCmp.isLE_trans (isLE_higher_left c e) hrest.1,
      Std.TransCmp.isLE_trans (isLE_higher_right c e) hrest.1, hrest.2⟩

/-- No candidate is above the highest one. -/
theorem isLE_of_highest? {cs : List Candidate} {best : Candidate} (h : highest? cs = some best) :
    ∀ c ∈ cs, (compare c best).isLE = true := by
  cases cs with
  | nil => simp [highest?] at h
  | cons c cs =>
    rw [highest?, Option.some.injEq] at h
    exact h ▸ isLE_foldl_higher cs c

theorem compare_def (c d : Candidate) :
    compare c d = (compare c.parsed d.parsed).then (compare c.version d.version) := rfl

/-- A candidate that is not above another one has no higher version. -/
theorem isLE_parsed {c d : Candidate} (h : (compare c d).isLE = true) :
    (compare c.parsed d.parsed).isLE = true := by
  rw [compare_def] at h
  cases ho : compare c.parsed d.parsed <;> simp_all

/-- Candidates neither of which is above the other have the same text. -/
theorem version_eq_of_isLE {c d : Candidate} (hcd : (compare c d).isLE = true)
    (hdc : (compare d c).isLE = true) : c.version = d.version := by
  have heq : compare c d = .eq := Std.OrientedCmp.isLE_antisymm hcd hdc
  rw [compare_def, Ordering.then_eq_eq] at heq
  exact Std.LawfulEqCmp.eq_of_compare heq.2

end Candidate

/-! ## Selection -/

namespace Selector

variable {s : Selector} {d : Dependency} {offered : List Candidate}

/-- Every decision is about the dependency it is taken for. -/
theorem dependency_select : (s.select d offered).dependency = d := by
  unfold select
  split
  · rfl
  · split
    · rfl
    · split
      · rfl
      · split <;> rfl

/-- What is proposed is the highest candidate that may be proposed, and is above the version in
use. -/
theorem highest?_of_select_update {d' : Dependency} {w : String} {t : Option Instant}
    (h : s.select d offered = .update d' w t) :
    Candidate.highest? (offered.filter (s.isEligible d)) = some ⟨w, t⟩ ∧
      isAbove d ⟨w, t⟩ = true := by
  unfold select at h
  split at h
  · cases h
  · split at h
    · cases h
    · split at h
      · cases h
      · next best hbest =>
        split at h
        · next habove =>
          cases h
          exact ⟨hbest, habove⟩
        · cases h

/-- What is proposed is offered, may be proposed and is above the version in use. -/
theorem of_select_update {d' : Dependency} {w : String} {t : Option Instant}
    (h : s.select d offered = .update d' w t) :
    ⟨w, t⟩ ∈ offered ∧ s.isEligible d ⟨w, t⟩ = true ∧ isAbove d ⟨w, t⟩ = true := by
  obtain ⟨hbest, habove⟩ := highest?_of_select_update h
  obtain ⟨hmem, helig⟩ := List.mem_filter.mp (Candidate.mem_of_highest? hbest)
  exact ⟨hmem, helig, habove⟩

/-- Where some candidate may be proposed, the highest of those decides. -/
theorem select_of_highest? {best : Candidate}
    (h : Candidate.highest? (offered.filter (s.isEligible d)) = some best) :
    s.select d offered =
      if isAbove d best then .update d best.version best.releasedAt
      else .skip d .alreadyLatest := by
  -- The candidate keeps the other reasons to skip the dependency from applying.
  obtain ⟨hmem, helig⟩ := List.mem_filter.mp (Candidate.mem_of_highest? h)
  have hne : offered.isEmpty = false := List.isEmpty_eq_false_iff_exists_mem.mpr ⟨best, hmem⟩
  have hignored : (offered.all fun c => s.ignores c.parsed) = false := by
    rw [List.all_eq_false]
    refine ⟨best, hmem, ?_⟩
    simp only [isEligible, Bool.and_eq_true, Bool.not_eq_true'] at helig
    simp [helig.1]
  simp [select, hne, hignored, h]

/-- Where some candidate may be proposed, there is a highest of those. -/
theorem exists_highest?_of_isEligible {c : Candidate} (hmem : c ∈ offered)
    (helig : s.isEligible d c = true) :
    ∃ best, Candidate.highest? (offered.filter (s.isEligible d)) = some best ∧
      (compare c best).isLE = true := by
  have hfilter : c ∈ offered.filter (s.isEligible d) := List.mem_filter.mpr ⟨hmem, helig⟩
  cases hbest : Candidate.highest? (offered.filter (s.isEligible d)) with
  | none =>
    rw [Candidate.highest?_eq_none_iff] at hbest
    simp [hbest] at hfilter
  | some best => exact ⟨best, rfl, Candidate.isLE_of_highest? hbest c hfilter⟩

/-- A candidate with no lower version than one above the version in use is above it, too. -/
theorem isAbove_mono {c e : Candidate} (h : isAbove d c = true)
    (hle : (compare c e).isLE = true) : isAbove d e = true := by
  cases hv : d.version with
  | none => simp [isAbove, hv]
  | some v =>
    simp only [isAbove, hv, Option.all_some, Ordering.isLT_iff_eq_lt] at h ⊢
    exact Std.TransCmp.lt_of_lt_of_isLE h (Candidate.isLE_parsed hle)

/-- A candidate that may be proposed and is above the version in use makes for an update, to it or
to a higher one. -/
theorem exists_select_eq_update {c : Candidate} (hmem : c ∈ offered)
    (helig : s.isEligible d c = true) (habove : isAbove d c = true) :
    ∃ best, s.select d offered = .update d best.version best.releasedAt ∧
      (compare c best).isLE = true := by
  obtain ⟨best, hbest, hle⟩ := exists_highest?_of_isEligible hmem helig
  refine ⟨best, ?_, hle⟩
  rw [select_of_highest? hbest, if_pos (isAbove_mono habove hle)]

/-- **An update is made exactly if some candidate may be proposed and is above the version in
use.** -/
theorem isUpdate_select_iff :
    (s.select d offered).isUpdate = true ↔
      ∃ c ∈ offered, s.isEligible d c = true ∧ isAbove d c = true := by
  constructor
  · intro h
    cases hs : s.select d offered with
    | update d' w t =>
      exact ⟨⟨w, t⟩, of_select_update hs⟩
    | skip d' reason => simp [hs, Decision.isUpdate] at h
  · rintro ⟨c, hmem, helig, habove⟩
    obtain ⟨best, hselect, -⟩ := exists_select_eq_update hmem helig habove
    rw [hselect]
    rfl

/-- **A selector that lets more candidates be proposed proposes no lower one.** -/
theorem exists_select_of_isEligible_imp {s' : Selector}
    (himp : ∀ c, s'.isEligible d c = true → s.isEligible d c = true) {d' : Dependency}
    {w' : String} {t' : Option Instant} (h : s'.select d offered = .update d' w' t') :
    ∃ w t, s.select d offered = .update d w t ∧
      (compare (Candidate.mk w' t') ⟨w, t⟩).isLE = true := by
  obtain ⟨hmem, helig, habove⟩ := of_select_update h
  obtain ⟨best, hselect, hle⟩ := exists_select_eq_update hmem (himp _ helig) habove
  exact ⟨best.version, best.releasedAt, hselect, hle⟩

/-! ## Reading a selector -/

/-- What may be proposed is in none of the ranges, is a release where it has to be, and is old
enough. -/
theorem isEligible_iff {c : Candidate} :
    s.isEligible d c = true ↔
      (∀ q ∈ s.ignored, q.admits c.parsed = false) ∧ s.isSuitable d c = true := by
  simp [isEligible, ignores]

/-- A selector is read from the requirements that its ranges denote. -/
theorem read?_eq_ok_iff {ranges : List String} {minAge : Option Duration} {now : Instant} :
    read? ranges minAge now = .ok s ↔
      ∃ ignored, ranges.mapM Requirement.read? = .ok ignored ∧ ⟨ignored, minAge, now⟩ = s := by
  unfold read?
  cases ranges.mapM Requirement.read? with
  | error cause => simp [Except.map]
  | ok ignored => simp [Except.map]

section Read

variable {ranges : List String} {minAge : Option Duration} {now : Instant}
  (h : read? ranges minAge now = .ok s)
include h

/-- Every range was read. -/
theorem exists_mem_ignored {range : String} (hr : range ∈ ranges) :
    ∃ q ∈ s.ignored, Requirement.read? range = .ok q := by
  obtain ⟨ignored, hm, rfl⟩ := read?_eq_ok_iff.mp h
  exact exists_mem_of_mapM hm hr

/-- What may be proposed is in none of the ignored ranges. -/
theorem not_admits_of_isEligible {c : Candidate} (hc : s.isEligible d c = true) {range : String}
    (hr : range ∈ ranges) :
    ∃ q, Requirement.read? range = .ok q ∧ q.admits c.parsed = false := by
  obtain ⟨q, hq, hread⟩ := exists_mem_ignored h hr
  exact ⟨q, hread, (isEligible_iff.mp hc).1 q hq⟩

/-- A selector that ignores fewer ranges can be read, too, and lets more candidates be proposed. -/
theorem exists_read?_of_subset {fewer : List String} (hsub : fewer ⊆ ranges) :
    ∃ s₀, read? fewer minAge now = .ok s₀ ∧
      ∀ d c, s.isEligible d c = true → s₀.isEligible d c = true := by
  obtain ⟨ignored, hm, rfl⟩ := read?_eq_ok_iff.mp h
  obtain ⟨ignored₀, hm₀⟩ : ∃ ignored₀, fewer.mapM Requirement.read? = .ok ignored₀ := by
    apply exists_mapM_eq_ok
    intro range hrange
    obtain ⟨q, -, hread⟩ := exists_mem_of_mapM hm (hsub hrange)
    exact ⟨q, hread⟩
  refine ⟨⟨ignored₀, minAge, now⟩, read?_eq_ok_iff.mpr ⟨ignored₀, hm₀, rfl⟩, ?_⟩
  intro d c hc
  rw [isEligible_iff] at hc ⊢
  refine ⟨?_, hc.2⟩
  -- A requirement of the fewer ranges is one of all ranges.
  intro q hq
  obtain ⟨range, hrange, hread⟩ := exists_mem_of_mem_mapM hm₀ hq
  exact hc.1 q ((mem_iff_of_mapM hm).mpr ⟨range, hsub hrange, hread⟩)

end Read

/-- Where no pre-release is in use, none may be proposed. -/
theorem isNumeric_of_isEligible {c : Candidate} (hd : allowsPrereleases d = false)
    (hc : s.isEligible d c = true) : c.parsed.isNumeric = true := by
  simp only [isEligible, isSuitable, hd, Bool.false_or, Bool.and_eq_true] at hc
  simpa [Candidate.isPrerelease, Version.isPrerelease] using hc.2.1

end Selector

end UpdatePlanner
