import UpdatePlanner.Version.Basic

/-!
# The order of versions

Segments are compared place by place.  A word stands below every number, words are compared as
text and numbers by value; the shorter version continues with zeros, so `1.2` and `1.2.0` are
equal and `1.3.a` is the lowest version of the line `1.3`.  Between equal releases the update
number decides, a missing one being zero.

## Main definitions

* `Segment.order`, `Segment.orderAll` — the order of segments and of lists of segments;
* `Ord Version`, `≤`, `<` — the order of versions;
* `Version.Equiv` — versions that compare equal.

## Main results

* `Segment.orderAll_nil_left` — nothing at all stands for zeros.
-/

namespace UpdatePlanner

namespace Segment

/-- The order of two segments at the same place. -/
def order : Segment → Segment → Ordering
  | word a, word b => compare a b
  | word _, number _ => .lt
  | number _, word _ => .gt
  | number a, number b => compare a b

/-- The order of a list of segments and a list of zeros. -/
def orderZeros : List Segment → Ordering
  | [] => .eq
  | s :: ss => (s.order (number 0)).then (orderZeros ss)

/-- The order of two lists of segments, the shorter of which continues with zeros. -/
def orderAll : List Segment → List Segment → Ordering
  | [], bs => (orderZeros bs).swap
  | as, [] => orderZeros as
  | a :: as, b :: bs => (a.order b).then (orderAll as bs)

@[simp] theorem orderAll_nil_left (bs : List Segment) :
    orderAll [] bs = (orderZeros bs).swap := by
  simp [orderAll]

@[simp] theorem orderAll_nil_right (as : List Segment) : orderAll as [] = orderZeros as := by
  cases as <;> simp [orderAll, orderZeros]

@[simp] theorem orderAll_cons_cons (a b : Segment) (as bs : List Segment) :
    orderAll (a :: as) (b :: bs) = (a.order b).then (orderAll as bs) := rfl

end Segment

namespace Version

instance : Ord Version where
  compare v w :=
    (Segment.orderAll v.segments w.segments).then (compare (v.update.getD 0) (w.update.getD 0))

instance : LE Version := ⟨fun v w => (compare v w).isLE = true⟩

instance : LT Version := ⟨fun v w => compare v w = .lt⟩

instance (v w : Version) : Decidable (v ≤ w) :=
  inferInstanceAs (Decidable ((compare v w).isLE = true))

instance (v w : Version) : Decidable (v < w) :=
  inferInstanceAs (Decidable (compare v w = .lt))

/-- Versions that compare equal, whatever their texts. -/
def Equiv (v w : Version) : Prop := compare v w = .eq

instance (v w : Version) : Decidable (Equiv v w) :=
  inferInstanceAs (Decidable (compare v w = .eq))

theorem compare_def (v w : Version) :
    compare v w = (Segment.orderAll v.segments w.segments).then
      (compare (v.update.getD 0) (w.update.getD 0)) := rfl

/-- The order of the versions that two texts denote. -/
def compareTexts (a b : String) : Ordering :=
  compare (read a) (read b)

/-- The versions of a list from lowest to highest; equal ones keep their places. -/
def sort (vs : List Version) : List Version :=
  vs.mergeSort fun v w => (compare v w).isLE

end Version

end UpdatePlanner
