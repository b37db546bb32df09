import UpdatePlanner.Proofs.Selection.Selected

/-!
# What a selection answers

A selection has five answers: an update, and four reasons to do without one. Which of them is given
is decided by what holds of the offered candidates, whatever their number and order: whether some
candidate may be proposed, and if so, whether one of those is above the version in use; and
otherwise, whether it was the ranges alone that left nothing over. The conditions exclude each other,
so an answer tells which of them holds.

## Main definitions

* `Selector.Proposable`: what it takes for a candidate to be proposed
* `Selector.Newer`: a candidate is above the version in use, if there is one
* `Selector.Outcome`: an answer together with what it stands for

## Main results

* `Selector.outcome_select`: every selection ends with an outcome that the candidates bear out
* `Selector.select_answers`: when each of the five answers is given, and which update is made
-/

namespace UpdatePlanner.Selector

variable {s : Selector} {d : Dependency} {offered : List Candidate} {c : Candidate}

/-! ## What may be proposed -/

/-- A candidate lies in some ignored range. -/
def InIgnored (s : Selector) (c : Candidate) : Prop :=
  ∃ range ∈ s.ignored, range.admits c.parsed = true

/-- A candidate that may be proposed lies in no ignored range. It is a pre-release only if the
version in use is one. If its date is known and there is an age to wait for, it was released when
that age began, or before. -/
structure Proposable (s : Selector) (d : Dependency) (c : Candidate) : Prop where
  not_inIgnored : ¬ s.InIgnored c
  prerelease : c.parsed.isPrerelease = true →
    ∃ version ∈ d.version, (Version.read version).isPrerelease = true
  released : ∀ date ∈ c.releasedAt, ∀ age ∈ s.minAge, date ≤ s.now.earlier age

/-- A candidate is above the version in use. Without one, every candidate is. -/
def Newer (d : Dependency) (c : Candidate) : Prop :=
  ∀ version ∈ d.version, Version.read version < c.parsed

theorem ignores_iff : s.ignores c.parsed = true ↔ s.InIgnored c := by
  simp [ignores, InIgnored]

theorem isEligible_iff_proposable : s.isEligible d c = true ↔ s.Proposable d c := by
  have hpre : (allowsPrereleases d || !c.isPrerelease) = true ↔
      (c.parsed.isPrerelease = true →
        ∃ version ∈ d.version, (Version.read version).isPrerelease = true) := by
    cases hc : c.parsed.isPrerelease <;>
      simp [allowsPrereleases, Candidate.isPrerelease, hc, Option.any_eq_true]
  have hdate : (s.cutoff.all fun t => c.releasedBy t) = true ↔
      ∀ date ∈ c.releasedAt, ∀ age ∈ s.minAge, date ≤ s.now.earlier age := by
    cases hage : s.minAge <;> simp [cutoff, Candidate.releasedBy, hage, Option.all_eq_true]
  rw [isEligible, isSuitable, Bool.and_eq_true, Bool.and_eq_true, Bool.not_eq_true', hpre, hdate,
    ← Bool.not_eq_true, ignores_iff]
  constructor
  · rintro ⟨hignored, hprerelease, hreleased⟩
    exact ⟨hignored, hprerelease, hreleased⟩
  · rintro ⟨hignored, hprerelease, hreleased⟩
    exact ⟨hignored, hprerelease, hreleased⟩

theorem isAbove_iff_newer : isAbove d c = true ↔ Newer d c := by
  cases hv : d.version with
  | none => simp [isAbove, Newer, hv]
  | some version =>
    simp only [isAbove, Newer, hv, Option.all_some, Option.mem_some_iff, forall_eq',
      Ordering.isLT_iff_eq_lt]
    rfl

/-! ## The five outcomes -/

/-- An answer to a dependency and its candidates, with what it stands for. -/
inductive Outcome (s : Selector) (d : Dependency) (offered : List Candidate) : Decision → Prop
  | nothingOffered (hnil : offered = []) : Outcome s d offered (.skip d .nothingOffered)
  | allIgnored (hne : offered ≠ []) (hall : ∀ c ∈ offered, s.InIgnored c) :
      Outcome s d offered (.skip d .allIgnored)
  | nothingSuitable (hleft : ∃ c ∈ offered, ¬ s.InIgnored c)
      (hnone : ∀ c ∈ offered, ¬ s.Proposable d c) : Outcome s d offered (.skip d .nothingSuitable)
  | alreadyLatest (hsome : ∃ c ∈ offered, s.Proposable d c)
      (hnone : ∀ c ∈ offered, s.Proposable d c → ¬ Newer d c) :
      Outcome s d offered (.skip d .alreadyLatest)
  | update {best : Candidate} (hmem : best ∈ offered) (hprop : s.Proposable d best)
      (hnewer : Newer d best)
      (hbest : ∀ c ∈ offered, s.Proposable d c → (compare c best).isLE = true) :
      Outcome s d offered (.update d best.version best.releasedAt)

/-- **Every selection ends with an outcome that the candidates bear out.** -/
theorem outcome_select (s : Selector) (d : Dependency) (offered : List Candidate) :
    s.Outcome d offered (s.select d offered) := by
  unfold select
  split
  · next hnil => exact .nothingOffered (List.isEmpty_iff.mp hnil)
  next hne =>
  rw [List.isEmpty_iff] at hne
  split
  · next hall =>
    refine .allIgnored hne ?_
    intro c hc
    exact ignores_iff.mp (List.all_eq_true.mp hall c hc)
  next hleft =>
  cases hbest : Candidate.highest? (offered.filter (s.isEligible d)) with
  | none =>
    rw [Candidate.highest?_eq_none_iff, List.filter_eq_nil_iff] at hbest
    refine .nothingSuitable ?_ ?_
    · rw [Bool.not_eq_true, List.all_eq_false] at hleft
      obtain ⟨c, hc, hignored⟩ := hleft
      exact ⟨c, hc, fun h => hignored (ignores_iff.mpr h)⟩
    · intro c hc hprop
      exact hbest c hc (isEligible_iff_proposable.mpr hprop)
  | some best =>
    obtain ⟨hmem, helig⟩ := List.mem_filter.mp (Candidate.mem_of_highest? hbest)
    have hhighest : ∀ c ∈ offered, s.Proposable d c → (compare c best).isLE = true := by
      intro c hc hprop
      exact Candidate.isLE_of_highest? hbest c
        (List.mem_filter.mpr ⟨hc, isEligible_iff_proposable.mpr hprop⟩)
    have hprop : s.Proposable d best := isEligible_iff_proposable.mp helig
    dsimp only
    split
    · next habove => exact .update hmem hprop (isAbove_iff_newer.mp habove) hhighest
    · next habove =>
      refine .alreadyLatest ⟨best, hmem, hprop⟩ ?_
      intro c hc hpropc hnewer
      -- Then the highest one would be above the version in use, too.
      exact habove (isAbove_mono (isAbove_iff_newer.mpr hnewer) (hhighest c hc hpropc))

/-- What the candidates bear out is one outcome: an update, or one reason to do without it. -/
theorem Outcome.skipReason?_eq {r r' : Decision} (h : s.Outcome d offered r)
    (h' : s.Outcome d offered r') : r.skipReason? = r'.skipReason? := by
  have hleft : ∀ c ∈ offered, s.Proposable d c → offered ≠ [] ∧ ¬ s.InIgnored c := by
    intro c hc hprop
    exact ⟨List.ne_nil_of_mem hc, hprop.not_inIgnored⟩
  -- Of any two different ones, some offered candidate satisfies the one and not the other.
  cases h <;> cases h' <;> grind [Decision.skipReason?]

/-- A reason is given exactly where the candidates bear it out. -/
theorem select_eq_skip_iff {reason : SkipReason} :
    s.select d offered = .skip d reason ↔ s.Outcome d offered (.skip d reason) := by
  constructor
  · intro h
    exact h ▸ outcome_select s d offered
  · intro h
    -- What is answered is borne out as well, so it is the same reason.
    have hreason := (outcome_select s d offered).skipReason?_eq h
    have hd : (s.select d offered).dependency = d := dependency_select
    generalize s.select d offered = r at hreason hd ⊢
    cases r with
    | update => cases hreason
    | skip d' reason' =>
      obtain rfl : d' = d := hd
      obtain rfl : reason' = reason := Option.some.inj hreason
      rfl

/-! ## When each answer is given -/

theorem select_eq_nothingOffered_iff :
    s.select d offered = .skip d .nothingOffered ↔ offered = [] := by
  rw [select_eq_skip_iff]
  constructor
  · rintro ⟨hnil⟩
    exact hnil
  · exact .nothingOffered

theorem select_eq_allIgnored_iff :
    s.select d offered = .skip d .allIgnored ↔ offered ≠ [] ∧ ∀ c ∈ offered, s.InIgnored c := by
  rw [select_eq_skip_iff]
  constructor
  · rintro ⟨⟩
    next hne hall => exact ⟨hne, hall⟩
  · rintro ⟨hne, hall⟩
    exact .allIgnored hne hall

theorem select_eq_nothingSuitable_iff :
    s.select d offered = .skip d .nothingSuitable ↔
      (∃ c ∈ offered, ¬ s.InIgnored c) ∧ ∀ c ∈ offered, ¬ s.Proposable d c := by
  rw [select_eq_skip_iff]
  constructor
  · rintro ⟨⟩
    next hleft hnone => exact ⟨hleft, hnone⟩
  · rintro ⟨hleft, hnone⟩
    exact .nothingSuitable hleft hnone

theorem select_eq_alreadyLatest_iff :
    s.select d offered = .skip d .alreadyLatest ↔
      (∃ c ∈ offered, s.Proposable d c) ∧
        ∀ c ∈ offered, s.Proposable d c → ¬ Newer d c := by
  rw [select_eq_skip_iff]
  constructor
  · rintro ⟨⟩
    next hsome hnone => exact ⟨hsome, hnone⟩
  · rintro ⟨hsome, hnone⟩
    exact .alreadyLatest hsome hnone

/-- An update is made to a candidate that may be proposed and is above the version in use, and no
other candidate that may be proposed is above it. -/
theorem best_of_select_update {d' : Dependency} {w : String} {t : Option Instant}
    (h : s.select d offered = .update d' w t) :
    d' = d ∧ ⟨w, t⟩ ∈ offered ∧ s.Proposable d ⟨w, t⟩ ∧ Newer d ⟨w, t⟩ ∧
      ∀ c ∈ offered, s.Proposable d c → (compare c ⟨w, t⟩).isLE = true := by
  have hout := outcome_select s d offered
  rw [h] at hout
  cases hout with
  | update hmem hprop hnewer hbest => exact ⟨rfl, hmem, hprop, hnewer, hbest⟩

theorem isUpdate_iff_exists_newer :
    (s.select d offered).isUpdate = true ↔ ∃ c ∈ offered, s.Proposable d c ∧ Newer d c := by
  simp only [isUpdate_select_iff, isEligible_iff_proposable, isAbove_iff_newer]

/-- **When each of the five answers is given, and which update is made**, for every selector, every
dependency and all candidates that it may be offered. -/
theorem select_answers (s : Selector) (d : Dependency) (offered : List Candidate) :
    ((s.select d offered).isUpdate = true ↔ ∃ c ∈ offered, s.Proposable d c ∧ Newer d c) ∧
      (∀ d' w t, s.select d offered = .update d' w t →
        d' = d ∧ ⟨w, t⟩ ∈ offered ∧ s.Proposable d ⟨w, t⟩ ∧ Newer d ⟨w, t⟩ ∧
          ∀ c ∈ offered, s.Proposable d c → (compare c ⟨w, t⟩).isLE = true) ∧
      (s.select d offered = .skip d .nothingOffered ↔ offered = []) ∧
      (s.select d offered = .skip d .allIgnored ↔
        offered ≠ [] ∧ ∀ c ∈ offered, s.InIgnored c) ∧
      (s.select d offered = .skip d .nothingSuitable ↔
        (∃ c ∈ offered, ¬ s.InIgnored c) ∧ ∀ c ∈ offered, ¬ s.Proposable d c) ∧
      (s.select d offered = .skip d .alreadyLatest ↔
        (∃ c ∈ offered, s.Proposable d c) ∧
          ∀ c ∈ offered, s.Proposable d c → ¬ Newer d c) :=
  ⟨isUpdate_iff_exists_newer, fun _ _ _ => best_of_select_update, select_eq_nothingOffered_iff,
    select_eq_allIgnored_iff, select_eq_nothingSuitable_iff, select_eq_alreadyLatest_iff⟩

end UpdatePlanner.Selector
