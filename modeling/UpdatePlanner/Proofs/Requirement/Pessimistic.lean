import UpdatePlanner.Proofs.Version.Slots
import UpdatePlanner.Requirement.Basic

/-!
# Version lines

The operator `~>` is meant to name a version line: `~> 1.2.3` the versions from `1.2.3` on that begin
with `1.2`. It is evaluated by the order of versions alone, as an interval that ends where the next
line begins. Among versions of numbers alone that is the same. A line is a beginning of a release
here, and which versions have it is seen at the first place at which they differ from it: above the
lower end they are too high there or not different at all, and below the upper end they are not too
high.

The place that is counted up is the last one that the line fixes. What follows it in the version, be
it a number, a word or an update number, moves the lower end of the interval and not the upper one.

## Main definitions

* `Version.leadingNumbers v`: the numbers that a release begins with
* `Version.fixedPlaces v`: how many of them the line of a version fixes

## Main results

* `Segment.lt_lineEnd_iff`: numbers above the beginning of a line are below its end if they begin alike
* `Version.exists_bump`: the end of the line of a version
* `Comparator.admits_pessimistic_iff`: `~>` admits the versions of a line from a version on
-/

namespace UpdatePlanner

open Text Segment

/-! ## Lists that begin alike -/

namespace Segment

theorem exists_eq_number {s : Segment} (h : s.isNumber = true) : ∃ n, s = .number n := by
  cases s with
  | number n => exact ⟨n, rfl⟩
  | word w => cases h

theorem forall_slot_eq_cons_iff {as bs : List Segment} {b : Segment} {k : Nat} :
    (∀ i ≤ k + 1, slot as i = slot (b :: bs) i) ↔
      slot as 0 = b ∧ ∀ i ≤ k, slot as.tail i = slot bs i := by
  constructor
  · intro h
    refine ⟨h 0 (Nat.zero_le _), ?_⟩
    intro i hi
    rw [slot_tail, h (i + 1) (Nat.succ_le_succ hi), slot_cons_succ]
  · rintro ⟨hzero, hsucc⟩ i hi
    cases i with
    | zero => exact hzero
    | succ i => rw [← slot_tail, hsucc i (Nat.le_of_succ_le_succ hi), slot_cons_succ]

/-- **Numbers that are no lower than a version of a line are below the end of the line exactly if
they begin as it does.** -/
theorem lt_lineEnd_iff {as ps rest : List Segment} {n : Nat} (has : ∀ s ∈ as, s.isNumber = true)
    (hps : ∀ s ∈ ps, s.isNumber = true) (hge : orderAll as (ps ++ .number n :: rest) ≠ .lt) :
    orderAll as (ps ++ [.number (n + 1)]) = .lt ↔
      ∀ i ≤ ps.length, slot as i = slot (ps ++ .number n :: rest) i := by
  -- By induction on the places in front of the last one, each of which may decide both sides.
  induction ps generalizing as with
  | nil =>
    obtain ⟨m, hm⟩ := exists_slot_number has 0
    rw [List.nil_append] at hge ⊢
    rw [ne_eq, orderAll_eq_lt_iff_of_slots hm (slot_cons_zero _ _), not_or] at hge
    rw [List.nil_append, orderAll_number_eq_lt_iff has hm]
    constructor
    · intro hlt i hi
      obtain rfl : i = 0 := Nat.le_zero.mp hi
      have hmn : m = n := by omega
      rw [hm, hmn, slot_cons_zero]
    · intro heq
      have hmn : m = n := by simpa [hm] using heq 0 (Nat.le_refl 0)
      omega
  | cons p ps ih =>
    rw [List.forall_mem_cons] at hps
    obtain ⟨m, hm⟩ := exists_slot_number has 0
    obtain ⟨q, rfl⟩ := exists_eq_number hps.1
    rw [List.cons_append, ne_eq, orderAll_eq_lt_iff_of_slots hm (slot_cons_zero _ _), not_or] at hge
    -- Not being lower at the first place, the version has to begin alike for either side to hold.
    rw [List.cons_append, List.cons_append, List.length_cons, forall_slot_eq_cons_iff, hm,
      number.injEq, orderAll_eq_lt_iff_of_slots hm (slot_cons_zero _ _), or_iff_right hge.1]
    apply and_congr_right
    intro hmq
    exact ih (isNumber_of_mem_tail has) hps.2 fun hlt => hge.2 ⟨hmq, hlt⟩

end Segment

namespace Version

/-- The numbers that a release begins with. -/
def leadingNumbers (v : Version) : List Segment :=
  v.segments.takeWhile isNumber

/-- How many of its leading numbers the line of a version fixes: all but the last, and one in any
case. -/
def fixedPlaces (v : Version) : Nat :=
  max 1 (v.leadingNumbers.length - 1)

theorem raiseLast_concat (ss : List Segment) (n : Nat) :
    raiseLast (ss ++ [number n]) = ss ++ [number (clamp (n + 1))] := by
  induction ss with
  | nil => rfl
  | cons s ss ih =>
    obtain ⟨t, ts, hts⟩ := List.exists_cons_of_ne_nil
      (List.append_ne_nil_of_right_ne_nil ss (List.cons_ne_nil (.number n) []))
    rw [List.cons_append, hts, raiseLast, ← hts, ih, List.cons_append]

theorem leadingNumbers_append (v : Version) :
    v.leadingNumbers ++ v.segments.dropWhile isNumber = v.segments :=
  List.takeWhile_append_dropWhile

theorem isNumber_of_mem_leadingNumbers (v : Version) :
    ∀ s ∈ v.leadingNumbers, s.isNumber = true :=
  List.all_eq_true.mp List.all_takeWhile

/-- The line ends where the last number that it fixes is raised. -/
theorem bump_eq (v : Version) :
    v.bump = ofSegments (raiseLast (v.leadingNumbers.take v.fixedPlaces)) := by
  have hkept : (if v.leadingNumbers.length > 1 then v.leadingNumbers.dropLast
      else v.leadingNumbers) = v.leadingNumbers.take v.fixedPlaces := by
    unfold fixedPlaces
    split
    · next hlong => rw [List.dropLast_eq_take, Nat.max_eq_right (by omega)]
    · next hshort => rw [List.take_of_length_le (by omega)]
  rw [← hkept]
  rfl

section Line

variable {v : Version} (hv : 1 ≤ v.leadingNumbers.length)
  (hlast : ∀ n, v.leadingNumbers[v.fixedPlaces - 1]? = some (.number n) → n < maxNumber)
include hv

theorem fixedPlaces_le : v.fixedPlaces ≤ v.leadingNumbers.length := by
  unfold fixedPlaces
  omega

include hlast

/-- **The end of the line of a version**: the last number that the line fixes is raised, and nothing
follows it. -/
theorem exists_bump :
    ∃ ps n rest, (∀ s ∈ ps, s.isNumber = true) ∧ ps.length + 1 = v.fixedPlaces ∧
      v.segments = ps ++ number n :: rest ∧ v.bump.segments = ps ++ [number (n + 1)] := by
  have hpos : 1 ≤ v.fixedPlaces := Nat.le_max_left _ _
  have hlt : v.fixedPlaces - 1 < v.leadingNumbers.length := by
    have hle := fixedPlaces_le hv
    omega
  obtain ⟨n, hn⟩ := exists_eq_number
    (isNumber_of_mem_leadingNumbers v _ (List.getElem_mem hlt))
  have hmax : n < maxNumber := hlast n (by rw [List.getElem?_eq_getElem hlt, hn])
  have htake : v.leadingNumbers.take v.fixedPlaces =
      v.leadingNumbers.take (v.fixedPlaces - 1) ++ [.number n] := by
    rw [← hn, List.take_append_getElem hlt, Nat.sub_add_cancel hpos]
  refine ⟨v.leadingNumbers.take (v.fixedPlaces - 1), n,
    v.leadingNumbers.drop v.fixedPlaces ++ v.segments.dropWhile isNumber, ?_, ?_, ?_, ?_⟩
  · intro s hs
    exact isNumber_of_mem_leadingNumbers v s (List.mem_of_mem_take hs)
  · rw [List.length_take]
    omega
  · calc v.segments
        = v.leadingNumbers ++ v.segments.dropWhile isNumber := (leadingNumbers_append v).symm
      _ = v.leadingNumbers.take v.fixedPlaces ++ v.leadingNumbers.drop v.fixedPlaces ++
            v.segments.dropWhile isNumber := by rw [List.take_append_drop]
      _ = _ := by rw [htake]; simp
  · rw [bump_eq, htake, raiseLast_concat, clamp_eq_self hmax, ofSegments]
    simp

/-- A version stands below the end of its line. -/
theorem lt_bump : v < v.bump := by
  obtain ⟨ps, n, rest, -, -, hsegments, hbump⟩ := exists_bump hv hlast
  have hlt : orderAll v.segments v.bump.segments = .lt := by
    rw [hsegments, hbump, orderAll_append_left]
    exact orderAll_number_number (Nat.lt_succ_self n) rest []
  exact Ordering.isLT_iff_eq_lt.mp ((isLT_iff_of_update_eq_none rfl).mpr hlt)

end Line

/-- The leading numbers of a version are its first segments. -/
theorem slot_leadingNumbers {v : Version} {i : Nat} (hi : i < v.leadingNumbers.length) :
    slot v.leadingNumbers i = slot v.segments i := by
  rw [← leadingNumbers_append v, slot, slot, List.getElem?_append_left hi]

/-- The segments of a version that is no lower are no lower. -/
theorem orderAll_ne_lt_of_le {v w : Version} (h : v ≤ w) : orderAll w.segments v.segments ≠ .lt := by
  intro hlt
  have hle : (compare v w).isLE = true := h
  rw [Std.OrientedOrd.eq_swap, compare_def, hlt] at hle
  cases hle

end Version

/-! ## The operator -/

theorem Comparator.admits_pessimistic {v w : Version} :
    (Comparator.mk .pessimistic v).admits w = true ↔ v ≤ w ∧ w < v.bump := by
  have hadmits : (Comparator.mk .pessimistic v).admits w = true ↔
      (compare w v).isGE = true ∧ (compare w v.bump).isLT = true := by
    rw [admits, Operator.relates, Bool.and_eq_true]
  rw [hadmits, Std.OrientedCmp.isGE_eq_isLE, Ordering.isLT_iff_eq_lt]
  rfl

/-- **`~>` admits the versions of a line from a version on**: among the versions of numbers alone
those that are no lower and have the numbers that the line fixes, missing ones being zero. Whatever
follows these numbers in the version that is named, it stands below the end of its line. -/
theorem Comparator.admits_pessimistic_iff {v w : Version} (hv : 1 ≤ v.leadingNumbers.length)
    (hlast : ∀ n, v.leadingNumbers[v.fixedPlaces - 1]? = some (.number n) → n < maxNumber)
    (hw : w.isNumeric = true) :
    ((Comparator.mk .pessimistic v).admits w = true ↔
        v ≤ w ∧ ∀ i < v.fixedPlaces, slot w.segments i = slot v.leadingNumbers i) ∧
      v < v.bump := by
  refine ⟨?_, Version.lt_bump hv hlast⟩
  obtain ⟨ps, n, rest, hps, hlength, hsegments, hbump⟩ := Version.exists_bump hv hlast
  have hnumbers : ∀ s ∈ w.segments, s.isNumber = true := List.all_eq_true.mp hw
  rw [admits_pessimistic]
  apply and_congr_right
  intro hle
  have hge := Version.orderAll_ne_lt_of_le hle
  -- The end of the line has no update number, so the segments decide.
  calc w < v.bump
      ↔ orderAll w.segments v.bump.segments = .lt := by
        rw [← Version.isLT_iff_of_update_eq_none rfl, Ordering.isLT_iff_eq_lt]
        rfl
    _ ↔ ∀ i ≤ ps.length, slot w.segments i = slot v.segments i := by
        rw [hsegments] at hge
        rw [hbump, hsegments]
        exact lt_lineEnd_iff hnumbers hps hge
    _ ↔ ∀ i < v.fixedPlaces, slot w.segments i = slot v.leadingNumbers i := by
        rw [← hlength]
        have hplaces := Version.fixedPlaces_le hv
        constructor
        · intro h i hi
          rw [h i (Nat.le_of_lt_succ hi), Version.slot_leadingNumbers (by omega)]
        · intro h i hi
          rw [h i (Nat.lt_succ_of_le hi), Version.slot_leadingNumbers (by omega)]

/-- A pre-release with an update number: its line is `1.2`. -/
def candidateRelease : Version := Version.read "1.2.3-rc.1_7"

theorem Comparator.admits_pessimistic_iff_candidateRelease :
    1 ≤ candidateRelease.leadingNumbers.length ∧
      (∀ n, candidateRelease.leadingNumbers[candidateRelease.fixedPlaces - 1]? = some (.number n) →
        n < maxNumber) ∧
      (Version.read "1.2.10_3").isNumeric = true ∧
      ((Comparator.mk .pessimistic candidateRelease).admits (Version.read "1.2.10_3") = true ↔
        candidateRelease ≤ Version.read "1.2.10_3" ∧ ∀ i < candidateRelease.fixedPlaces,
          slot (Version.read "1.2.10_3").segments i = slot candidateRelease.leadingNumbers i) ∧
      candidateRelease < candidateRelease.bump := by
  have hv : 1 ≤ candidateRelease.leadingNumbers.length := by with_unfolding_all decide
  have hlast : ∀ n, candidateRelease.leadingNumbers[candidateRelease.fixedPlaces - 1]? =
      some (.number n) → n < maxNumber := by
    have htwo : candidateRelease.leadingNumbers[candidateRelease.fixedPlaces - 1]? =
        some (.number 2) := by with_unfolding_all decide
    intro n hn
    obtain rfl : 2 = n := by simpa [htwo] using hn
    decide
  have hw : (Version.read "1.2.10_3").isNumeric = true := by with_unfolding_all decide
  exact ⟨hv, hlast, hw, admits_pessimistic_iff hv hlast hw⟩

end UpdatePlanner
