import UpdatePlanner.Proofs.Calendar.Earlier
import UpdatePlanner.Proofs.Selection.Selected

/-!
# Waiting longer

A candidate has to be released by the time that lies an age before now. Where the age is longer,
that time is no later, and every candidate that was released by it was released by the later one,
too. So waiting longer lets no other candidates be proposed, and what is proposed is no higher.

## Main definitions

* `Selector.waiting s age`: the selector with another age to wait for

## Main results

* `Selector.isEligible_of_waiting`: who waits longer, or at all, lets no other candidates be proposed
* `Selector.select_waiting`: the times of two ages, and what is proposed after them
-/

namespace UpdatePlanner

theorem Candidate.releasedBy_mono {c : Candidate} {t u : Instant} (h : c.releasedBy t = true)
    (htu : t ≤ u) : c.releasedBy u = true := by
  simp only [releasedBy, Option.all_eq_true, decide_eq_true_eq] at h ⊢
  intro date hdate
  exact Instant.le_trans (h date hdate) htu

namespace Selector

/-- The selector with another age to wait for. -/
def waiting (s : Selector) (age : Option Duration) : Selector :=
  { s with minAge := age }

theorem cutoff_waiting (s : Selector) (age : Duration) :
    (s.waiting (some age)).cutoff = some (s.now.earlier age) := rfl

section Waiting

variable {s : Selector} {d : Dependency} {c : Candidate} {a b : Duration}

/-- What may be proposed after an age was released by its time, and is what may be proposed without
an age. -/
theorem isEligible_waiting_iff :
    (s.waiting (some a)).isEligible d c = true ↔
      (s.waiting none).isEligible d c = true ∧ c.releasedBy (s.now.earlier a) = true := by
  rw [isEligible_iff, isEligible_iff]
  simp [isSuitable, waiting, cutoff, and_assoc]

/-- **Who waits longer lets no other candidates be proposed**, nor does who waits at all. -/
theorem isEligible_of_waiting (hnanos : s.now.nanos < 2 * Instant.nanosPerSecond) (hab : a ≤ b)
    {age : Option Duration} (hage : age = none ∨ age = some a)
    (h : (s.waiting (some b)).isEligible d c = true) :
    (s.waiting age).isEligible d c = true := by
  obtain ⟨hnone, hreleased⟩ := isEligible_waiting_iff.mp h
  rcases hage with rfl | rfl
  · exact hnone
  · have hle := Instant.earlier_le_earlier hnanos hab
    exact isEligible_waiting_iff.mpr ⟨hnone, Candidate.releasedBy_mono hreleased hle⟩

end Waiting

/-- **The times of two ages, and what is proposed after them.** From every instant of the calendar,
the longer age leads to a time that is no later than that of the shorter one, and this to one that is
no later than now. Both stay in the calendar: they are the exact times, or the beginning of the
calendar if that is later. What is proposed after the longer age is no higher than what is then
proposed after the shorter one, and without an age. -/
theorem select_waiting {s : Selector} (hnow : s.now.inCalendar = true)
    (hnanos : s.now.nanos < 2 * Instant.nanosPerSecond) {a b : Duration} (hab : a ≤ b) :
    (∃ longer shorter, (s.waiting (some b)).cutoff = some longer ∧
      (s.waiting (some a)).cutoff = some shorter ∧ longer ≤ shorter ∧ shorter ≤ s.now ∧
      longer.inCalendar = true ∧ shorter.inCalendar = true ∧
      longer.inNanos = max Instant.first.inNanos (s.now.inNanos - b.inNanos) ∧
      shorter.inNanos = max Instant.first.inNanos (s.now.inNanos - a.inNanos)) ∧
    ∀ (d : Dependency) (offered : List Candidate) (d' : Dependency) (w' : String)
      (t' : Option Instant), (s.waiting (some b)).select d offered = .update d' w' t' →
      ∀ age, age = none ∨ age = some a →
        ∃ w t, (s.waiting age).select d offered = .update d w t ∧
          (compare (Candidate.mk w' t') ⟨w, t⟩).isLE = true := by
  constructor
  · exact ⟨s.now.earlier b, s.now.earlier a, cutoff_waiting s b, cutoff_waiting s a,
      Instant.earlier_le_earlier hnanos hab, Instant.earlier_le_self hnow hnanos a,
      Instant.inCalendar_earlier hnow hnanos b, Instant.inCalendar_earlier hnow hnanos a,
      Instant.inNanos_earlier hnow hnanos b, Instant.inNanos_earlier hnow hnanos a⟩
  · intro d offered d' w' t' hselect age hage
    refine exists_select_of_isEligible_imp ?_ hselect
    intro c hc
    exact isEligible_of_waiting hnanos hab hage hc

/-- A selector for the twelfth day of 1970. -/
def januarySelector : Selector := ⟨[], none, ⟨1000000, 0⟩⟩

def januaryDependency : Dependency := ⟨"rack", some "1.0", .bundler, []⟩

/-- A candidate without a date, one that is six days old, and one that is too recent for a day. -/
def januaryCandidates : List Candidate :=
  [⟨"1.1", none⟩, ⟨"1.2", some ⟨500000, 0⟩⟩, ⟨"1.3", some ⟨999999, 0⟩⟩]

/-- The longest age that can be held leads to the beginning of the calendar. -/
theorem select_waiting_januarySelector :
    (januarySelector.waiting (some (Duration.ofSeconds Text.maxNumber))).cutoff =
        some Instant.first ∧
      (januarySelector.waiting (some 86400)).cutoff = some ⟨913600, 0⟩ ∧
      ∃ w t, (januarySelector.waiting (some 86400)).select januaryDependency januaryCandidates =
          .update januaryDependency w t ∧
        (compare (Candidate.mk "1.1" none) ⟨w, t⟩).isLE = true := by
  have hlongest : (januarySelector.waiting (some (Duration.ofSeconds Text.maxNumber))).select
      januaryDependency januaryCandidates = .update januaryDependency "1.1" none := by
    with_unfolding_all decide
  have hages : 86400 ≤ Duration.ofSeconds Text.maxNumber := by decide
  obtain ⟨-, hselect⟩ := select_waiting (s := januarySelector) (by decide) (by decide) hages
  refine ⟨by decide, by decide, ?_⟩
  obtain ⟨w, t, hupdate, hle⟩ := hselect _ _ _ _ _ hlongest (some 86400) (.inr rfl)
  exact ⟨w, t, hupdate, hle⟩

end Selector

end UpdatePlanner
