import UpdatePlanner.Calendar.Duration

/-!
# Moving back in the calendar

An age is clamped twice on its way to an earlier instant: to the longest duration by which an instant
can be moved, and what it leads to, to the beginning of the calendar. The first clamp lies far beyond
the second, so what clamps at first clamps in the end, and the two are one: the nanoseconds of the
instant that is reached are those of the start less those of the age, or those of the beginning of
the calendar if these are more. Leap seconds need care, as their instants are not ordered by
nanoseconds; moving back leaves a leap second or stays in it, and never enters one.

## Main definitions

* `Duration.inNanos d`, `Instant.inNanos t`: durations and instants in nanoseconds
* `Instant.IsBefore t d u`: the instant `u` lies a duration before `t`

## Main results

* `Instant.isBefore_before`: what moving back reaches, with leap seconds and without
* `Instant.earlier_le_earlier`: a longer age leads to no later instant
* `Instant.earlier_le_self`, `Instant.inCalendar_earlier`: no age leads to a later instant than the
  start, or out of the calendar
* `Instant.inNanos_earlier`: both clamps together are one
-/

namespace UpdatePlanner

/-! ## Durations -/

namespace Duration

/-- The duration in nanoseconds. -/
def inNanos (d : Duration) : Int :=
  d.seconds * Instant.nanosPerSecond + d.nanos

theorem le_iff_inNanos {d e : Duration} : d ≤ e ↔ d.inNanos ≤ e.inNanos := by
  have hd := d.nanos_lt
  have he := e.nanos_lt
  show d.seconds < e.seconds ∨ d.seconds = e.seconds ∧ d.nanos ≤ e.nanos ↔ _
  simp only [inNanos, Instant.nanosPerSecond] at hd he ⊢
  omega

theorem shift_of_le {d : Duration} (h : d ≤ longestShift) : d.shift = d := by
  simp [shift, shift?, h]

theorem shift_of_not_le {d : Duration} (h : ¬ d ≤ longestShift) : d.shift = longestShift := by
  simp [shift, shift?, h]

/-- **The duration by which an instant is moved is clamped.** -/
theorem inNanos_shift (d : Duration) :
    d.shift.inNanos = min d.inNanos longestShift.inNanos := by
  by_cases h : d ≤ longestShift
  · rw [shift_of_le h]
    rw [le_iff_inNanos] at h
    omega
  · rw [shift_of_not_le h]
    rw [le_iff_inNanos] at h
    omega

end Duration

namespace Instant

/-! ## The order of instants -/

theorem le_iff {t u : Instant} :
    t ≤ u ↔ t.seconds < u.seconds ∨ t.seconds = u.seconds ∧ t.nanos ≤ u.nanos := by
  show ((compare t.seconds u.seconds).then (compare t.nanos u.nanos)).isLE = true ↔ _
  rcases hseconds : compare t.seconds u.seconds with _ | _ | _
  · have hlt := Int.compare_eq_lt.mp hseconds
    simp [hlt]
  · have heq := Int.compare_eq_eq.mp hseconds
    simp [heq, Nat.isLE_compare]
  · have hgt := Int.compare_eq_gt.mp hseconds
    simp
    omega

theorem le_trans {t u v : Instant} (htu : t ≤ u) (huv : u ≤ v) : t ≤ v := by
  rw [le_iff] at htu huv ⊢
  omega

/-- The nanoseconds since the beginning of 1970. -/
def inNanos (t : Instant) : Int :=
  t.seconds * nanosPerSecond + t.nanos

theorem first_seconds : first.seconds = -8334601228800 := by decide

theorem lastSecond_eq : lastSecond = 8210266876799 := by decide

theorem seconds_of_inCalendar {t : Instant} (h : t.inCalendar = true) :
    first.seconds ≤ t.seconds ∧ t.seconds ≤ lastSecond := by
  simpa [inCalendar] using h

theorem first_le {t : Instant} (h : first.seconds ≤ t.seconds) : first ≤ t := by
  have hnanos : first.nanos = 0 := rfl
  rw [le_iff]
  omega

/-! ## Moving back -/

/-- An instant that lies a duration before another one. -/
structure IsBefore (t : Instant) (d : Duration) (u : Instant) : Prop where
  inNanos : u.inNanos = t.inNanos - d.inNanos
  seconds_le : u.seconds ≤ t.seconds
  /-- It lies in a leap second only if this is the one of the start. -/
  nanos_lt : u.nanos < nanosPerSecond ∨ u.seconds = t.seconds

section Before

variable {t start : Instant} {d : Duration}

/-- Whole seconds are taken off first, and one of them is broken if the nanoseconds do not
suffice. -/
theorem isBefore_of_start (hnanos : start.nanos < nanosPerSecond)
    (hstart : start.inNanos = t.inNanos)
    (hseconds : start.seconds ≤ t.seconds ∨ start.seconds = t.seconds + 1 ∧ d.seconds ≠ 0) :
    t.IsBefore d (if d.nanos ≤ start.nanos then
        ⟨start.seconds - d.seconds, start.nanos - d.nanos⟩
      else ⟨start.seconds - d.seconds - 1, start.nanos + nanosPerSecond - d.nanos⟩) := by
  have hd := d.nanos_lt
  simp only [inNanos, nanosPerSecond] at hnanos hstart hd ⊢
  by_cases h : d.nanos ≤ start.nanos
  · rw [if_pos h]
    refine ⟨?_, ?_, .inl ?_⟩ <;> simp only [inNanos, Duration.inNanos, nanosPerSecond] <;> omega
  · rw [if_neg h]
    refine ⟨?_, ?_, .inl ?_⟩ <;> simp only [inNanos, Duration.inNanos, nanosPerSecond] <;> omega

/-- **What moving back reaches.** -/
theorem isBefore_before (ht : t.nanos < 2 * nanosPerSecond) (d : Duration) :
    t.IsBefore d (t.before d) := by
  unfold before
  by_cases hstay : d.seconds = 0 ∧ nanosPerSecond ≤ t.nanos
  · -- The leap second is not left.
    have hd := d.nanos_lt
    rw [if_pos hstay]
    refine ⟨?_, Int.le_refl _, .inr rfl⟩
    simp only [nanosPerSecond] at hstay hd
    simp only [inNanos, Duration.inNanos, nanosPerSecond]
    omega
  · rw [if_neg hstay]
    by_cases hleap : t.nanos < nanosPerSecond
    · rw [if_pos hleap]
      exact isBefore_of_start hleap rfl (.inl (Int.le_refl _))
    · rw [if_neg hleap]
      simp only [nanosPerSecond] at ht hstay hleap
      apply isBefore_of_start
      · show t.nanos - nanosPerSecond < nanosPerSecond
        simp only [nanosPerSecond]
        omega
      · simp only [inNanos, nanosPerSecond]
        omega
      · right
        exact ⟨rfl, by omega⟩

end Before

namespace IsBefore

variable {t u v : Instant} {d e : Duration}

theorem le (h : t.IsBefore d u) : u ≤ t := by
  have hseconds := h.seconds_le
  have hnanos := h.inNanos
  rw [le_iff]
  simp only [Instant.inNanos, Duration.inNanos, nanosPerSecond] at hnanos
  omega

/-- A longer duration leads no less far back. -/
theorem anti (hu : t.IsBefore d u) (hv : t.IsBefore e v) (h : d ≤ e) : v ≤ u := by
  have hle := Duration.le_iff_inNanos.mp h
  obtain ⟨hnanos, hseconds, hleap⟩ := hu
  obtain ⟨hnanos', hseconds', hleap'⟩ := hv
  rw [le_iff]
  -- Instants out of leap seconds are ordered by nanoseconds; the others share the second of `t`.
  simp only [Instant.inNanos, nanosPerSecond] at hnanos hnanos' hleap hleap'
  omega

end IsBefore

/-! ## Staying in the calendar -/

theorem earlier_eq (t : Instant) (age : Duration) :
    t.earlier age =
      if (t.before age.shift).seconds < first.seconds then first else t.before age.shift := by
  unfold earlier back?
  split <;> rfl

theorem first_le_earlier (t : Instant) (age : Duration) : first ≤ t.earlier age := by
  rw [earlier_eq]
  split
  · exact first_le (Int.le_refl _)
  · next h => exact first_le (by omega)

section Calendar

variable {now : Instant} (hnow : now.inCalendar = true) (hnanos : now.nanos < 2 * nanosPerSecond)

include hnanos in
/-- **A longer age leads to no later instant.** -/
theorem earlier_le_earlier {a b : Duration} (hab : a ≤ b) : now.earlier b ≤ now.earlier a := by
  have hshift : a.shift ≤ b.shift := by
    rw [Duration.le_iff_inNanos] at hab ⊢
    rw [Duration.inNanos_shift, Duration.inNanos_shift]
    omega
  have hanti := (isBefore_before hnanos a.shift).anti (isBefore_before hnanos b.shift) hshift
  rw [earlier_eq now b]
  split
  · exact first_le_earlier now a
  · next hb =>
    -- Where the longer age stays in the calendar, so does the shorter one.
    have ha : ¬ (now.before a.shift).seconds < first.seconds := by
      rw [le_iff] at hanti
      omega
    rw [earlier_eq now a, if_neg ha]
    exact hanti

include hnow hnanos

/-- **No age leads to a later instant than the start.** -/
theorem earlier_le_self (age : Duration) : now.earlier age ≤ now := by
  rw [earlier_eq]
  split
  · exact first_le (seconds_of_inCalendar hnow).1
  · exact (isBefore_before hnanos age.shift).le

/-- No age leads out of the calendar. -/
theorem inCalendar_earlier (age : Duration) : (now.earlier age).inCalendar = true := by
  have hfirst := first_le_earlier now age
  have hself := earlier_le_self hnow hnanos age
  have hlast := (seconds_of_inCalendar hnow).2
  rw [le_iff] at hfirst hself
  rw [inCalendar, decide_eq_true_eq]
  omega

/-- The longest duration by which an instant can be moved leads out of the calendar. -/
theorem inNanos_sub_longestShift_lt :
    now.inNanos - Duration.longestShift.inNanos < first.inNanos := by
  have hlast := (seconds_of_inCalendar hnow).2
  rw [lastSecond_eq] at hlast
  simp only [inNanos, Duration.inNanos, Duration.longestShift, nanosPerSecond, first_seconds]
    at hnanos ⊢
  omega

/-- **Both clamps together are one**, in nanoseconds: the age itself is taken off, and what lies
before the calendar is its beginning. -/
theorem inNanos_earlier (age : Duration) :
    (now.earlier age).inNanos = max first.inNanos (now.inNanos - age.inNanos) := by
  have hbefore := isBefore_before hnanos age.shift
  have hshift := age.inNanos_shift
  have hfar := inNanos_sub_longestShift_lt hnow hnanos
  have hfirst := (seconds_of_inCalendar hnow).1
  have hreached := hbefore.inNanos
  have hnanos' := hbefore.nanos_lt
  rw [earlier_eq]
  split
  · next h =>
    -- What is reached is no instant of a leap second, as the start lies in the calendar.
    have hlt : (now.before age.shift).inNanos < first.inNanos := by
      simp only [inNanos, nanosPerSecond] at hnanos' ⊢
      omega
    omega
  · next h =>
    have hle : first.inNanos ≤ (now.before age.shift).inNanos := by
      have hzero : first.nanos = 0 := rfl
      simp only [inNanos, nanosPerSecond]
      omega
    omega

end Calendar

end Instant

end UpdatePlanner
