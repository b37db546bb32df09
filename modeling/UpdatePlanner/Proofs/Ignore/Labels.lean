import UpdatePlanner.Version.Change
import UpdatePlanner.Proofs.Ignore.Coverage

/-!
# Ranges and labels

A range decides by boundaries which updates of a kind are ignored, and a report labels an update by
the first numbers of its two versions. For versions of numbers alone both compare the first two
slots, so a range holds the updates that get its label.

## Main results

* `Change.between_of_slots`: the label of an update between versions that begin with numbers
* `NumberedVersion.covers_iff_between`: the ranges and the labels agree
-/

namespace UpdatePlanner

open Segment

/-! ## Labels -/

namespace Change

theorem numberAt_of_slot {v : Version} {place n : Nat} (h : slot v.segments place = .number n) :
    numberAt v place = some n := by
  unfold slot at h
  unfold numberAt
  cases hs : v.segments[place]? with
  | none =>
    rw [hs, Option.getD_none, number.injEq] at h
    rw [h]
  | some s =>
    rw [hs, Option.getD_some] at h
    rw [h]

section Slots

variable {old new : String} {m n m' n' : Nat}
  (hm : slot (Version.read old).segments 0 = .number m)
  (hn : slot (Version.read old).segments 1 = .number n)
  (hm' : slot (Version.read new).segments 0 = .number m')
  (hn' : slot (Version.read new).segments 1 = .number n')
include hm hn hm' hn'

/-- The label of an update between versions that begin with two numbers. -/
theorem between_of_slots :
    between old new = if m ≠ m' then .major else if n ≠ n' then .minor else .patch := by
  simp only [between, numberAt_of_slot hm, numberAt_of_slot hn, numberAt_of_slot hm',
    numberAt_of_slot hn', ne_eq, Option.some.injEq]

theorem between_eq_major_iff : between old new = .major ↔ m ≠ m' := by
  rw [between_of_slots hm hn hm' hn']
  split
  · next h => simp [h]
  · next h => split <;> simp [h]

theorem between_eq_minor_iff : between old new = .minor ↔ m = m' ∧ n ≠ n' := by
  rw [between_of_slots hm hn hm' hn']
  split
  · next h => simp [h]
  · next h => split <;> simp_all

end Slots

end Change

/-! ## Agreement -/

/-- A version that was read has a first segment, which stands in its first slot. -/
theorem Version.head?_segments_eq_some_iff {raw : String} {s : Segment} :
    (Version.read raw).segments.head? = some s ↔ slot (Version.read raw).segments 0 = s := by
  obtain ⟨t, ts, h⟩ := List.exists_cons_of_ne_nil (segments_read_ne_nil raw)
  rw [h, List.head?_cons, slot_cons_zero, Option.some.injEq]

namespace NumberedVersion

variable (v : NumberedVersion)

/-- **The ranges and the labels agree**: of the numeric versions above the one in use, the minor
range holds those with the label minor, the unbounded major range those with the label major, and
the range of the next major line those of them whose first number is the next one. -/
theorem covers_iff_between {w : String} (hw : (Version.read w).isNumeric = true)
    (habove : Version.read v.text < Version.read w) (reach : Reach) :
    (UpdateKind.minor.covers reach v.text w = true ↔ Change.between v.text w = .minor) ∧
      (UpdateKind.major.covers .unbounded v.text w = true ↔ Change.between v.text w = .major) ∧
      (UpdateKind.major.covers .nextLine v.text w = true ↔
        Change.between v.text w = .major ∧
          ∃ n, (Version.read v.text).segments.head? = some (.number n) ∧
            (Version.read w).segments.head? = some (.number (n + 1))) := by
  have hnumbers := List.all_eq_true.mp hw
  have hm := v.slot_zero_read_text
  have hn := v.slot_one_read_text
  obtain ⟨m', hm'⟩ := exists_slot_number hnumbers 0
  obtain ⟨n', hn'⟩ := exists_slot_number hnumbers 1
  have horder := v.major_lt_or_minor_le hm' hn' habove
  have hheads : (∃ n, (Version.read v.text).segments.head? = some (.number n) ∧
      (Version.read w).segments.head? = some (.number (n + 1))) ↔ m' = v.major + 1 := by
    simp [Version.head?_segments_eq_some_iff, hm, hm']
  rw [v.covers_minor_iff_of_isNumeric hw hm' hn', v.covers_major_unbounded_iff_of_isNumeric hw hm',
    v.covers_major_nextLine_iff_of_isNumeric hw hm', hheads,
    Change.between_eq_major_iff hm hn hm' hn', Change.between_eq_minor_iff hm hn hm' hn']
  omega

theorem covers_iff_between_oneTwoThree :
    oneTwoThree.text = "1.2.3" ∧ (Version.read "1.10").isNumeric = true ∧
      Version.read oneTwoThree.text < Version.read "1.10" ∧
      (UpdateKind.minor.covers .nextLine oneTwoThree.text "1.10" = true ↔
        Change.between oneTwoThree.text "1.10" = .minor) ∧
      (UpdateKind.major.covers .unbounded oneTwoThree.text "1.10" = true ↔
        Change.between oneTwoThree.text "1.10" = .major) ∧
      (UpdateKind.major.covers .nextLine oneTwoThree.text "1.10" = true ↔
        Change.between oneTwoThree.text "1.10" = .major ∧
          ∃ n, (Version.read oneTwoThree.text).segments.head? = some (.number n) ∧
            (Version.read "1.10").segments.head? = some (.number (n + 1))) := by
  have hnumeric : (Version.read "1.10").isNumeric = true := by with_unfolding_all decide
  have habove : Version.read oneTwoThree.text < Version.read "1.10" := by with_unfolding_all decide
  exact ⟨by decide, hnumeric, habove,
    oneTwoThree.covers_iff_between hnumeric habove .nextLine⟩

end NumberedVersion

end UpdatePlanner
