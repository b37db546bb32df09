import Mathlib.Data.List.DropRight
import UpdatePlanner.Proofs.Version.Order

/-!
# Versions that compare equal

The order of versions is a total preorder and no more: `1.2` and `1.2.0` are different texts and
different lists of segments, and neither is above the other. Zeros at the end of a release are all
that the order does not see of it, and an update number of zero is as good as none.

## Main definitions

* `Segment.significant ss`: the segments of a release without the zeros at its end

## Main results

* `Segment.orderAll_eq_eq_iff`: lists compare equal exactly if their significant segments agree
* `Version.totalPreorder_compare`: versions are preordered totally, and which of them are equal
-/

namespace UpdatePlanner

namespace Segment

/-! ## Significant segments -/

/-- The segments of a release without the zeros at its end. -/
def significant (ss : List Segment) : List Segment :=
  ss.rdropWhile fun s => s == number 0

@[simp] theorem significant_nil : significant [] = [] := rfl

theorem significant_eq_nil_iff {ss : List Segment} :
    significant ss = [] ↔ ∀ s ∈ ss, s = number 0 := by
  simp [significant, List.rdropWhile_eq_nil_iff]

/-- A segment is significant unless it is a zero with nothing significant behind it. -/
theorem significant_cons (s : Segment) (ss : List Segment) :
    significant (s :: ss) =
      if significant ss = [] ∧ s = number 0 then [] else s :: significant ss := by
  unfold significant List.rdropWhile
  rw [List.reverse_cons, List.dropWhile_append]
  by_cases hss : ss.reverse.dropWhile (fun s => s == number 0) = []
  · by_cases hs : s = number 0
    · simp [hss, hs]
    · simp [hss, hs]
  · simp [hss]

/-- Zeros at the end are all that is dropped, so lists are compared behind their first segments. -/
theorem significant_cons_eq_iff {a b : Segment} {as bs : List Segment} :
    significant (a :: as) = significant (b :: bs) ↔
      a = b ∧ significant as = significant bs := by
  rw [significant_cons, significant_cons]
  by_cases ha : significant as = [] ∧ a = number 0
  · by_cases hb : significant bs = [] ∧ b = number 0
    · simp [ha, hb]
    · -- The left side vanishes and the right one does not, so the lists part somewhere.
      rw [if_pos ha, if_neg hb]
      refine iff_of_false (List.cons_ne_nil _ _).symm ?_
      rintro ⟨rfl, heq⟩
      exact hb ⟨heq ▸ ha.1, ha.2⟩
  · by_cases hb : significant bs = [] ∧ b = number 0
    · rw [if_neg ha, if_pos hb]
      refine iff_of_false (List.cons_ne_nil _ _) ?_
      rintro ⟨rfl, heq⟩
      exact ha ⟨heq ▸ hb.1, hb.2⟩
    · rw [if_neg ha, if_neg hb, List.cons.injEq]

/-! ## Equal lists -/

theorem orderZeros_eq_eq_iff {ss : List Segment} :
    orderZeros ss = .eq ↔ significant ss = [] := by
  rw [significant_eq_nil_iff]
  induction ss with
  | nil => exact iff_of_true rfl (by simp)
  | cons s ss ih =>
    rw [orderZeros, Ordering.then_eq_eq, Std.LawfulEqCmp.compare_eq_iff_eq, ih,
      List.forall_mem_cons]

/-- **Lists compare equal exactly if their significant segments agree.** -/
theorem orderAll_eq_eq_iff {as bs : List Segment} :
    orderAll as bs = .eq ↔ significant as = significant bs := by
  -- By induction on the first list, for every second one: either may run out before the other.
  induction as generalizing bs with
  | nil =>
    rw [orderAll_nil_left, Ordering.swap_eq_eq, orderZeros_eq_eq_iff, significant_nil, eq_comm]
  | cons a as ih =>
    cases bs with
    | nil => rw [orderAll_nil_right, orderZeros_eq_eq_iff, significant_nil]
    | cons b bs =>
      rw [orderAll_cons_cons, Ordering.then_eq_eq, Std.LawfulEqCmp.compare_eq_iff_eq, ih,
        significant_cons_eq_iff]

end Segment

/-! ## Versions -/

namespace Version

open Segment

/-- Versions compare equal exactly if their releases agree but for zeros at the end, and their
update numbers agree, a missing one being zero. -/
theorem compare_eq_eq_iff {v w : Version} :
    compare v w = .eq ↔
      significant v.segments = significant w.segments ∧ v.update.getD 0 = w.update.getD 0 := by
  rw [compare_def, Ordering.then_eq_eq, orderAll_eq_eq_iff, Nat.compare_eq_eq]

/-- **Versions are preordered totally**, whatever words, numbers and missing segments stand against
each other, and equal are those that differ in nothing but zeros: at the end of the release, or in
place of a missing update number. -/
theorem totalPreorder_compare (u v w : Version) :
    compare u u = .eq ∧ compare v u = (compare u v).swap ∧
      ((compare u v).isLE = true → (compare v w).isLE = true → (compare u w).isLE = true) ∧
      (compare u v = .eq ↔
        significant u.segments = significant v.segments ∧
          u.update.getD 0 = v.update.getD 0) := by
  refine ⟨Std.ReflCmp.compare_self, Std.OrientedCmp.eq_swap, ?_, compare_eq_eq_iff⟩
  intro huv hvw
  exact Std.TransCmp.isLE_trans huv hvw

/-- A word, a missing segment and zeros at one place: `1.3.a` is below `1.3`, which is equal to the
version of the segments `1`, `3`, `0` and `0`. -/
theorem totalPreorder_compare_lineStart :
    (compare (read "1.3.a") (read "1.3")).isLE = true ∧
      (compare (read "1.3") (ofSegments [.number 1, .number 3, .number 0, .number 0])).isLE = true ∧
      (compare (read "1.3.a")
        (ofSegments [.number 1, .number 3, .number 0, .number 0])).isLE = true ∧
      compare (read "1.3.a") (read "1.3") ≠ .eq := by
  have hword : (compare (read "1.3.a") (read "1.3")).isLE = true := by with_unfolding_all decide
  have hzeros : (compare (read "1.3")
      (ofSegments [.number 1, .number 3, .number 0, .number 0])).isLE = true := by
    with_unfolding_all decide
  obtain ⟨-, -, htrans, heq⟩ := totalPreorder_compare (read "1.3.a") (read "1.3")
    (ofSegments [.number 1, .number 3, .number 0, .number 0])
  refine ⟨hword, hzeros, htrans hword hzeros, ?_⟩
  rw [ne_eq, heq]
  with_unfolding_all decide

end Version

end UpdatePlanner
