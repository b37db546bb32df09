import Mathlib.Data.List.Basic
import UpdatePlanner.Calendar.Age
import UpdatePlanner.Proofs.Text.Cutting
import UpdatePlanner.Proofs.Version.Scan

/-!
# The grammar of ages

The reader of ages takes a text apart from its ends: it trims the text, takes the last character for
the unit and what is left for the count. The grammar puts the text together from its pieces, and
knows neither trimming nor order. Both come to the same, and a text that the grammar does not know
is refused as it was given.

The length of an age is clamped twice, once as days and once as seconds. What the first clamp cuts
off, the second would cut off as well, so both together are one clamp of the product. Therefore a
larger count never makes a shorter age.

## Main definitions

* `Age.IsUnit`: the letters for units, with the days in each
* `Age.Written`: a text as the grammar of ages has it, with its count and the days in its unit

## Main results

* `clamp_clamp_mul`: clamping on the way does not matter if the result is clamped
* `Age.seconds?_eq_some_iff`: texts are read as the grammar has them
* `Age.read?_accepts_written`: what is read of a text, and what is refused
-/

namespace UpdatePlanner

namespace Text

/-- **Clamping on the way does not matter** where the result is clamped. -/
theorem clamp_clamp_mul (n : Nat) {k : Nat} (hk : 0 < k) :
    clamp (clamp n * k) = clamp (n * k) := by
  by_cases hfits : n ≤ maxNumber
  · rw [clamp_eq_self hfits]
  · have hclamp : clamp n = maxNumber := Nat.min_eq_right (Nat.le_of_not_le hfits)
    have hlarge : maxNumber ≤ maxNumber * k := Nat.le_mul_of_pos_right _ hk
    have hlarger : maxNumber * k ≤ n * k := Nat.mul_le_mul_right k (Nat.le_of_not_le hfits)
    -- The largest number stays the largest one under both products.
    rw [hclamp, clamp, clamp, Nat.min_eq_right hlarge,
      Nat.min_eq_right (Nat.le_trans hlarge hlarger)]

end Text

namespace Age

open Text

/-! ## Units and counts -/

/-- The letters for units of age, with the days in each unit. -/
inductive IsUnit : Char → Nat → Prop
  | day : IsUnit 'd' 1
  | week : IsUnit 'w' 7
  | month : IsUnit 'm' 30

theorem daysPerUnit_eq_some_iff {unit : Char} {days : Nat} :
    daysPerUnit unit = some days ↔ IsUnit unit days := by
  constructor
  · intro h
    simp only [daysPerUnit] at h
    split at h
    · next hunit =>
      cases hunit
      cases h
      exact .day
    · split at h
      · next hunit =>
        cases hunit
        cases h
        exact .week
      · next hunit =>
        obtain ⟨rfl, h⟩ := Option.ite_none_right_eq_some.mp h
        cases h
        exact .month
  · intro h
    cases h <;> rfl

theorem IsUnit.isBlank_eq_false {unit : Char} {days : Nat} (h : IsUnit unit days) :
    isBlank unit = false := by
  cases h <;> decide

/-- Signs that may stand in front of a count. -/
def signs : List (List Char) := [[], ['+']]

theorem count?_eq_some_iff {cs : List Char} {n : Nat} :
    count? cs = some n ↔ ∃ sign ∈ signs, ∃ run, sign ++ run = cs ∧ number? run = some n := by
  constructor
  · intro h
    unfold count? at h
    split at h
    · exact ⟨['+'], by simp [signs], _, rfl, h⟩
    · exact ⟨[], by simp [signs], cs, rfl, h⟩
  · rintro ⟨sign, hsign, run, rfl, hrun⟩
    simp only [signs, List.mem_cons, List.not_mem_nil, or_false] at hsign
    rcases hsign with rfl | rfl
    · -- A run of digits begins with no sign.
      unfold count?
      split
      · next cs hcs =>
        obtain rfl : run = '+' :: cs := hcs
        obtain ⟨hdigits, -⟩ := number?_eq_some_iff.mp hrun
        have hplus := (isDigits_iff.mp hdigits).2 '+' List.mem_cons_self
        cases hplus
      · exact hrun
    · exact hrun

/-! ## Texts of ages -/

/-- A text as the grammar of ages has it: a count that can be held, with a sign or without one, and
a unit behind it, with white space around them. -/
inductive Written : List Char → Nat → Nat → Prop
  | intro {before sign run after : List Char} {unit : Char} {days : Nat} (hbefore : AllBlank before)
      (hsign : sign ∈ signs) (hrun : isDigits run = true) (hfits : digitsValue run ≤ maxNumber)
      (hunit : IsUnit unit days) (hafter : AllBlank after) :
      Written (before ++ (sign ++ run ++ [unit] ++ after)) (digitsValue run) days

/-- Between the sign or the first digit and the unit there is nothing to trim. -/
theorem trim_count_unit {sign run : List Char} {unit : Char} {days : Nat} (hsign : sign ∈ signs)
    (hrun : isDigits run = true) (hunit : IsUnit unit days) :
    trim (sign ++ run ++ [unit]) = sign ++ run ++ [unit] := by
  obtain ⟨d, ds, rfl, hd, -⟩ := exists_cons_of_isDigits hrun
  apply trim_eq_self
  · intro c hc
    simp only [signs, List.mem_cons, List.not_mem_nil, or_false] at hsign
    rcases hsign with rfl | rfl
    · obtain rfl : d = c := Option.some.inj hc
      exact Segment.isBlank_eq_false (Segment.not_isGap_of_isDigit hd)
    · obtain rfl : '+' = c := Option.some.inj hc
      rfl
  · intro c hc
    rw [List.getLast?_concat, Option.mem_some_iff] at hc
    exact hc ▸ hunit.isBlank_eq_false

/-- **Texts are read as the grammar has them.** -/
theorem seconds?_eq_some_iff {cs : List Char} {seconds : Nat} :
    seconds? cs = some seconds ↔
      ∃ count days, Written cs count days ∧ seconds = clamp (count * days * secondsPerDay) := by
  have hclamp (count days : Nat) :
      clamp (clamp (count * days) * secondsPerDay) = clamp (count * days * secondsPerDay) :=
    clamp_clamp_mul _ (by decide)
  constructor
  · intro h
    obtain ⟨unit, hlast, h⟩ := Option.bind_eq_some_iff.mp h
    obtain ⟨days, hdays, h⟩ := Option.bind_eq_some_iff.mp h
    obtain ⟨count, hcount, h⟩ := Option.bind_eq_some_iff.mp h
    obtain ⟨sign, hsign, run, hcs, hrun⟩ := count?_eq_some_iff.mp hcount
    obtain ⟨hdigits, hfits, rfl⟩ := number?_eq_some_iff.mp hrun
    obtain ⟨before, after, hbefore, hafter, htext⟩ := exists_blank_append_trim cs
    have htrim : trim cs = sign ++ run ++ [unit] := by
      rw [hcs, List.dropLast_append_getLast? unit hlast]
    refine ⟨digitsValue run, days, ?_, ?_⟩
    · rw [← htext, htrim]
      exact .intro hbefore hsign hdigits hfits (daysPerUnit_eq_some_iff.mp hdays) hafter
    · rw [← hclamp]
      exact (Option.some.inj h).symm
  · rintro ⟨count, days, hwritten, rfl⟩
    cases hwritten with
    | @intro before sign run after unit days hbefore hsign hrun hfits hunit hafter =>
      have hcount := count?_eq_some_iff.mpr
        ⟨_, hsign, _, rfl, number?_eq_some_iff.mpr ⟨hrun, hfits, rfl⟩⟩
      have htrim := trim_append_of_blank hbefore hafter (sign ++ run ++ [unit])
      rw [trim_count_unit hsign hrun hunit] at htrim
      rw [seconds?, htrim, List.getLast?_concat, List.dropLast_concat]
      simp [daysPerUnit_eq_some_iff.mpr hunit, hcount, hclamp]

/-- The length of an age, clamped once. -/
theorem clamp_mul_secondsPerDay (count days : Nat) :
    clamp (count * days * secondsPerDay) = min (Nat.pow 2 64 - 1) (count * days * 86400) :=
  Nat.min_comm ..

/-! ## Reading an age -/

variable {text : String}

theorem read?_eq_ok_iff_seconds? {seconds : Nat} :
    read? text = .ok seconds ↔ seconds? text.toList = some seconds := by
  unfold read?
  cases seconds? text.toList <;> simp

theorem read?_eq_error_iff_seconds? {fault : ConfigFailure} :
    read? text = .error fault ↔
      seconds? text.toList = none ∧ fault = .invalidDuration text := by
  unfold read?
  cases seconds? text.toList <;> simp [eq_comm]

/-- A text as the grammar has it is read. -/
theorem Written.read? {count days : Nat} (h : Written text.toList count days) :
    read? text = .ok (clamp (count * days * secondsPerDay)) :=
  read?_eq_ok_iff_seconds?.mpr (seconds?_eq_some_iff.mpr ⟨count, days, h, rfl⟩)

/-- **The reader of ages accepts exactly what the grammar has**, and clamps the length of an age to
64 bits as a whole. What the grammar does not have is refused, and the refusal shows the text as it
was given. Of two counts of one unit the larger one never makes a shorter age. -/
theorem read?_accepts_written (text : String) :
    (∀ seconds, read? text = .ok seconds ↔
        ∃ count days, Written text.toList count days ∧
          seconds = min (Nat.pow 2 64 - 1) (count * days * 86400)) ∧
      (∀ fault, read? text = .error fault ↔
        (¬ ∃ count days, Written text.toList count days) ∧ fault = .invalidDuration text) ∧
      ∀ (other : String) (count count' days : Nat), Written text.toList count days →
        Written other.toList count' days → count ≤ count' →
          ∃ seconds seconds', read? text = .ok seconds ∧ read? other = .ok seconds' ∧
            seconds ≤ seconds' := by
  refine ⟨?accepts, ?refuses, ?mono⟩
  case accepts =>
    intro seconds
    simp only [read?_eq_ok_iff_seconds?, seconds?_eq_some_iff, clamp_mul_secondsPerDay]
  case refuses =>
    intro fault
    rw [read?_eq_error_iff_seconds?, Option.eq_none_iff_forall_not_mem]
    refine and_congr_left fun _ => ?_
    constructor
    · rintro h ⟨count, days, hwritten⟩
      exact h _ (seconds?_eq_some_iff.mpr ⟨count, days, hwritten, rfl⟩)
    · rintro h seconds hseconds
      obtain ⟨count, days, hwritten, -⟩ := seconds?_eq_some_iff.mp hseconds
      exact h ⟨count, days, hwritten⟩
  case mono =>
    intro other count count' days hwritten hother hle
    refine ⟨_, _, hwritten.read?, hother.read?, clamp_mono ?_⟩
    exact Nat.mul_le_mul_right _ (Nat.mul_le_mul_right _ hle)

/-- The count is held in 64 bits, and the age is clamped to them; zeros in front do not count. -/
example : read? " +00018446744073709551615w" = .ok 18446744073709551615 := by cbv

end Age

end UpdatePlanner
