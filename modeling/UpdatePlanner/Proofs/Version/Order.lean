import UpdatePlanner.Selection.Candidate

/-!
# The order of versions is total

Two lists of segments are compared place by place, and a list continues with zeros beyond its
end. Read with these zeros, the comparison is lexicographic at every step, and so it is
transitive. Versions and candidates inherit this: they are preordered totally, by their segments
first.

## Main definitions

* `Segment.slot ss i`: the segment at place `i` of `ss`, zero beyond its end

## Main results

* `Segment.orderAll_eq_then`: the comparison of two lists in terms of their first slots
* `Segment.orderAll_append_left`: a common beginning does not count
* the instances of `Std.TransCmp` for `Segment.orderAll`, `Version` and `Candidate`
* `Version.isGE_iff_of_update_eq_none`, `Version.isLT_iff_of_update_eq_none`: comparing with a
  version without update number
-/

namespace UpdatePlanner

namespace Segment

/-! ## Segments -/

instance : Std.LawfulEqCmp order where
  compare_self {a} := by cases a <;> simp [order]
  eq_of_compare {a b} h := by cases a <;> cases b <;> simp_all [order]

instance : Std.TransCmp order where
  eq_swap {a b} := by
    cases a <;> cases b
    · exact Std.OrientedOrd.eq_swap
    · rfl
    · rfl
    · exact Std.OrientedOrd.eq_swap
  isLE_trans {a b c} hab hbc := by
    cases a <;> cases b <;> cases c <;> simp only [order] at hab hbc ⊢
    all_goals first
      | exact Std.TransOrd.isLE_trans hab hbc
      | contradiction
      | rfl

@[simp] theorem order_self (a : Segment) : a.order a = .eq := Std.ReflCmp.compare_self

/-! ## Lists of segments -/

/-- The segment at a place of a release. Beyond the end of the release stand zeros. -/
def slot (ss : List Segment) (place : Nat) : Segment :=
  ss[place]?.getD (number 0)

@[simp] theorem slot_nil (place : Nat) : slot [] place = number 0 := by simp [slot]

@[simp] theorem slot_cons_zero (s : Segment) (ss : List Segment) : slot (s :: ss) 0 = s := by
  simp [slot]

@[simp] theorem slot_cons_succ (s : Segment) (ss : List Segment) (place : Nat) :
    slot (s :: ss) (place + 1) = slot ss place := by
  simp [slot]

theorem orderAll_swap (as bs : List Segment) : orderAll as bs = (orderAll bs as).swap := by
  induction as generalizing bs with
  | nil => rw [orderAll_nil_left, orderAll_nil_right]
  | cons a as ih =>
    cases bs with
    | nil => rw [orderAll_nil_left, orderAll_nil_right, Ordering.swap_swap]
    | cons b bs =>
      rw [orderAll_cons_cons, orderAll_cons_cons, Ordering.swap_then, ← ih bs,
        ← Std.OrientedCmp.eq_swap]

/-- Whatever their lengths, two lists are compared by their first slots, and then by what comes
after these. -/
theorem orderAll_eq_then (as bs : List Segment) :
    orderAll as bs = ((slot as 0).order (slot bs 0)).then (orderAll as.tail bs.tail) := by
  have hzeros : ∀ as, orderAll as [] =
      ((slot as 0).order (number 0)).then (orderAll as.tail []) := by
    intro as
    cases as with
    | nil => simp
    | cons a as => simp [orderZeros]
  cases bs with
  | nil => simpa using hzeros as
  | cons b bs =>
    cases as with
    | nil =>
      -- The other list has run out, which is the case above turned around.
      rw [orderAll_swap, hzeros, Ordering.swap_then, ← orderAll_swap, ← Std.OrientedCmp.eq_swap,
        slot_nil, List.tail_nil]
    | cons a as => simp

/-- One step of the transitivity of `orderAll`. -/
private theorem isLE_then_trans {a b c : Segment} {o₁ o₂ o₃ : Ordering}
    (ho : o₁.isLE → o₂.isLE → o₃.isLE) (hab : ((a.order b).then o₁).isLE)
    (hbc : ((b.order c).then o₂).isLE) : ((a.order c).then o₃).isLE := by
  -- The first difference decides, be it between the first two or between the last two.
  cases h₁ : a.order b with
  | gt => simp [h₁] at hab
  | lt =>
    have hle : (b.order c).isLE := by
      cases h₂ : b.order c <;> simp_all
    rw [Std.TransCmp.lt_of_lt_of_isLE h₁ hle]
    rfl
  | eq =>
    rw [Std.LawfulEqCmp.eq_of_compare h₁]
    cases h₂ : b.order c with
    | gt => simp [h₂] at hbc
    | lt => rfl
    | eq =>
      rw [h₁] at hab
      rw [h₂] at hbc
      exact ho hab hbc

/-- The induction is on a bound of the three lengths, as the lists run out at different
places. -/
theorem orderAll_isLE_trans (n : Nat) {as bs cs : List Segment} (ha : as.length ≤ n)
    (hb : bs.length ≤ n) (hc : cs.length ≤ n) (hab : (orderAll as bs).isLE)
    (hbc : (orderAll bs cs).isLE) : (orderAll as cs).isLE := by
  induction n generalizing as bs cs with
  | zero =>
    rw [List.eq_nil_of_length_eq_zero (Nat.le_zero.mp ha),
      List.eq_nil_of_length_eq_zero (Nat.le_zero.mp hc)]
    rfl
  | succ n ih =>
    have htail : ∀ xs : List Segment, xs.length ≤ n + 1 → xs.tail.length ≤ n := by
      intro xs hxs
      rw [List.length_tail]
      omega
    rw [orderAll_eq_then] at hab hbc ⊢
    refine isLE_then_trans ?_ hab hbc
    intro h₁ h₂
    exact ih (htail as ha) (htail bs hb) (htail cs hc) h₁ h₂

instance : Std.TransCmp orderAll where
  eq_swap := orderAll_swap _ _
  isLE_trans {as bs cs} :=
    orderAll_isLE_trans (max as.length (max bs.length cs.length)) (by omega) (by omega) (by omega)

/-- A common beginning does not count. -/
@[simp] theorem orderAll_append_left (ps as bs : List Segment) :
    orderAll (ps ++ as) (ps ++ bs) = orderAll as bs := by
  induction ps with
  | nil => rfl
  | cons p ps ih =>
    rw [List.cons_append, List.cons_append, orderAll_cons_cons, order_self, Ordering.eq_then, ih]

theorem orderAll_word_number (w : String) (n : Nat) (as bs : List Segment) :
    orderAll (.word w :: as) (.number n :: bs) = .lt := rfl

theorem orderAll_number_number {m n : Nat} (h : m < n) (as bs : List Segment) :
    orderAll (.number m :: as) (.number n :: bs) = .lt := by
  have hlt : compare m n = .lt := Nat.compare_eq_lt.mpr h
  simp [order, hlt]

/-- Of two lists in order, the first slots are in order. -/
theorem order_slot_zero_isLE {as bs : List Segment} (h : (orderAll as bs).isLE) :
    ((slot as 0).order (slot bs 0)).isLE := by
  rw [orderAll_eq_then] at h
  cases ho : (slot as 0).order (slot bs 0) <;> simp_all

end Segment

/-! ## Versions and candidates -/

namespace Version

open Segment

instance transCmp_segments :
    Std.TransCmp fun v w : Version => orderAll v.segments w.segments where
  eq_swap := orderAll_swap _ _
  isLE_trans h₁ h₂ :=
    have trans : Std.TransCmp orderAll := inferInstance
    trans.isLE_trans h₁ h₂

instance : Std.TransOrd Version :=
  inferInstanceAs (Std.TransCmp (compareLex
    (fun v w : Version => orderAll v.segments w.segments) (compareOn fun v => v.update.getD 0)))

/-- The segments of a version that is no higher are no higher. -/
theorem orderAll_isLE_of_lt {v w : Version} (h : compare v w = .lt) :
    (orderAll v.segments w.segments).isLE := by
  rw [compare_def] at h
  cases ho : orderAll v.segments w.segments <;> simp_all

section Plain

variable {v w : Version} (hw : w.update = none)
include hw

theorem isGE_iff_of_update_eq_none :
    (compare v w).isGE ↔ orderAll v.segments w.segments ≠ .lt := by
  have hupdate : (compare (v.update.getD 0) 0).isGE := by simp [Nat.isGE_compare]
  rw [compare_def, hw, Option.getD_none]
  cases orderAll v.segments w.segments <;> simp_all

theorem isLT_iff_of_update_eq_none :
    (compare v w).isLT ↔ orderAll v.segments w.segments = .lt := by
  have hupdate : (compare (v.update.getD 0) 0).isLT = false := by
    simp [Ordering.isLT, Nat.compare_eq_lt]
  rw [compare_def, hw, Option.getD_none]
  cases orderAll v.segments w.segments <;> simp_all

end Plain

end Version

instance : Std.TransOrd Candidate :=
  inferInstanceAs (Std.TransCmp (compareLex (compareOn Candidate.parsed)
    (compareOn Candidate.version)))

end UpdatePlanner
