import UpdatePlanner.Proofs.Version.Order
import UpdatePlanner.Requirement.Reader

/-!
# Requirements denote ranges of versions

A condition that compares a version with a bound goes on to one side: whoever satisfies it, takes
along everything above, or everything below. Every operator but `!=` is such a condition, or the
conjunction of one to each side; `~>` lies between its version and the end of the line. The bound
by zero, which a requirement has if no comparator bounds it from below, goes on above as well. So
a requirement is a conjunction of conditions to either side, and has no gaps between versions
that satisfy it. Versions that compare equal satisfy the same conditions, as a condition goes on
from each of them to the other.

## Main definitions

* `Version.IsUpward p`, `Version.IsDownward p`: a condition goes on above, or below
* `Version.IsBetween p`: a condition is the conjunction of one to either side

## Main results

* `Operator.isBetween_relates`: every operator but `!=` lies between two bounds
* `Requirement.isBetween_admits`: so does every requirement without `!=`
* `Requirement.denotes_range`: requirements respect equal versions, and those without `!=` have
  no gaps
-/

namespace UpdatePlanner

namespace Version

/-! ## Conditions to one side -/

variable {p q : Version → Bool}

/-- A condition that goes on above a version that satisfies it. -/
def IsUpward (p : Version → Bool) : Prop :=
  ∀ v w, v ≤ w → p v = true → p w = true

/-- A condition that goes on below a version that satisfies it. -/
def IsDownward (p : Version → Bool) : Prop :=
  ∀ v w, v ≤ w → p w = true → p v = true

/-- A condition that is the conjunction of one that goes on above and one that goes on below. -/
def IsBetween (p : Version → Bool) : Prop :=
  ∃ above below : Version → Bool, IsUpward above ∧ IsDownward below ∧
    ∀ v, p v = (above v && below v)

theorem isUpward_true : IsUpward fun _ => true := fun _ _ _ h => h

theorem isDownward_true : IsDownward fun _ => true := fun _ _ _ h => h

theorem IsUpward.and (hp : IsUpward p) (hq : IsUpward q) : IsUpward fun v => p v && q v := by
  intro v w hvw h
  rw [Bool.and_eq_true] at h ⊢
  exact ⟨hp v w hvw h.1, hq v w hvw h.2⟩

theorem IsDownward.and (hp : IsDownward p) (hq : IsDownward q) :
    IsDownward fun v => p v && q v := by
  intro v w hvw h
  rw [Bool.and_eq_true] at h ⊢
  exact ⟨hp v w hvw h.1, hq v w hvw h.2⟩

theorem IsUpward.isBetween (h : IsUpward p) : IsBetween p :=
  ⟨p, fun _ => true, h, isDownward_true, fun v => (Bool.and_true (p v)).symm⟩

theorem IsDownward.isBetween (h : IsDownward p) : IsBetween p :=
  ⟨fun _ => true, p, isUpward_true, h, fun v => (Bool.true_and (p v)).symm⟩

namespace IsBetween

theorem and (hp : IsBetween p) (hq : IsBetween q) : IsBetween fun v => p v && q v := by
  obtain ⟨above, below, habove, hbelow, hp⟩ := hp
  obtain ⟨above', below', habove', hbelow', hq⟩ := hq
  refine ⟨_, _, habove.and habove', hbelow.and hbelow', ?_⟩
  intro v
  simp only [hp, hq, Bool.and_assoc, Bool.and_left_comm (below v)]

/-- A conjunction of any length. -/
theorem all {α : Type} {l : List α} {f : α → Version → Bool} (h : ∀ x ∈ l, IsBetween (f x)) :
    IsBetween fun v => l.all fun x => f x v := by
  induction l with
  | nil => exact isUpward_true.isBetween
  | cons x l ih =>
    rw [List.forall_mem_cons] at h
    simpa only [List.all_cons] using h.1.and (ih h.2)

/-- What lies between two bounds has no gaps. -/
theorem of_le_of_le (h : IsBetween p) {u v w : Version} (huv : u ≤ v) (hvw : v ≤ w)
    (hu : p u = true) (hw : p w = true) : p v = true := by
  obtain ⟨above, below, habove, hbelow, hp⟩ := h
  rw [hp, Bool.and_eq_true] at hu hw ⊢
  exact ⟨habove u v huv hu.1, hbelow v w hvw hw.2⟩

end IsBetween

/-! ## Comparing with a bound -/

section Bound

variable (bound : Version)

theorem isUpward_isGE : IsUpward fun v => (compare v bound).isGE := by
  intro v w hvw h
  exact Std.TransCmp.isGE_trans (Std.OrientedCmp.isGE_iff_isLE.mpr hvw) h

theorem isUpward_isGT : IsUpward fun v => (compare v bound).isGT := by
  intro v w hvw h
  rw [Ordering.isGT_iff_eq_gt] at h ⊢
  exact Std.TransCmp.gt_of_isGE_of_gt (Std.OrientedCmp.isGE_iff_isLE.mpr hvw) h

theorem isDownward_isLE : IsDownward fun v => (compare v bound).isLE := by
  intro v w hvw h
  exact Std.TransCmp.isLE_trans hvw h

theorem isDownward_isLT : IsDownward fun v => (compare v bound).isLT := by
  intro v w hvw h
  rw [Ordering.isLT_iff_eq_lt] at h ⊢
  exact Std.TransCmp.lt_of_isLE_of_lt hvw h

end Bound

/-- Versions that compare equal compare with every bound alike. -/
theorem Equiv.compare_eq {v w : Version} (h : Equiv v w) (bound : Version) :
    compare v bound = compare w bound :=
  Std.TransCmp.congr_left h

end Version

open Version

/-! ## Comparators -/

namespace Operator

/-- **Every operator but `!=` lies between two bounds.** -/
theorem isBetween_relates {op : Operator} (h : op ≠ .notEqual) (bound : Version) :
    IsBetween fun v => op.relates v bound := by
  cases op with
  | notEqual => exact absurd rfl h
  | greater => exact (isUpward_isGT bound).isBetween
  | less => exact (isDownward_isLT bound).isBetween
  | atLeast => exact (isUpward_isGE bound).isBetween
  | atMost => exact (isDownward_isLE bound).isBetween
  | pessimistic => exact ⟨_, _, isUpward_isGE bound, isDownward_isLT bound.bump, fun _ => rfl⟩
  | equal =>
    -- The same bound on both sides.
    refine ⟨_, _, isUpward_isGE bound, isDownward_isLE bound, ?_⟩
    intro v
    cases hv : compare v bound <;> simp [relates, hv]

end Operator

theorem Comparator.admits_congr (c : Comparator) {v w : Version} (h : v.Equiv w) :
    c.admits v = c.admits w := by
  simp only [admits, Operator.relates, h.compare_eq]

/-! ## Requirements -/

namespace Requirement

theorem isUpward_implicitBound (r : Requirement) :
    IsUpward fun v => r.boundedBelow || (compare v zero).isGE := by
  cases r.boundedBelow with
  | true => exact isUpward_true
  | false => exact isUpward_isGE zero

/-- **A requirement without `!=` lies between two bounds.** -/
theorem isBetween_admits {r : Requirement} (h : ∀ c ∈ r.comparators, c.op ≠ .notEqual) :
    IsBetween r.admits := by
  have hall : IsBetween fun v => r.comparators.all fun c => c.admits v :=
    IsBetween.all fun c hc => Operator.isBetween_relates (h c hc) c.version
  exact (isUpward_implicitBound r).isBetween.and hall

theorem admits_congr (r : Requirement) {v w : Version} (h : v.Equiv w) :
    r.admits v = r.admits w := by
  have hcomparators : ∀ c : Comparator, c.admits v = c.admits w :=
    fun c => c.admits_congr h
  simp only [admits, h.compare_eq, hcomparators]

/-- **Requirements denote ranges of versions.** Versions that compare equal satisfy the same
requirements. If no comparator of a requirement is `!=`, a version between two that satisfy it
satisfies it too, be the bounds written or implicit. -/
theorem denotes_range (r : Requirement) :
    (∀ v w : Version, v.Equiv w → (r.admits v = true ↔ r.admits w = true)) ∧
      ((∀ c ∈ r.comparators, c.op ≠ .notEqual) → ∀ u v w : Version, u ≤ v → v ≤ w →
        r.admits u = true → r.admits w = true → r.admits v = true) := by
  constructor
  · intro v w h
    rw [r.admits_congr h]
  · intro hne u v w huv hvw
    exact (isBetween_admits hne).of_le_of_le huv hvw

/-- The line `1` up to `1.9.0`, as two constraints. -/
def onePointNine : Requirement :=
  ⟨[⟨.pessimistic, Version.read "1.2"⟩, ⟨.atMost, Version.read "1.9.0"⟩]⟩

theorem denotes_range_onePointNine :
    read? "~> 1.2, <= 1.9.0" = .ok onePointNine ∧
      (onePointNine.admits (Version.read "1.9") = true ↔
        onePointNine.admits (Version.read "1.9.0") = true) ∧
      onePointNine.admits (Version.read "1.3.rc1") = true := by
  have hne : ∀ c ∈ onePointNine.comparators, c.op ≠ .notEqual := by decide
  have hzero : (Version.read "1.9").Equiv (Version.read "1.9.0") := by
    with_unfolding_all decide
  have hlower : onePointNine.admits (Version.read "1.2") = true := by with_unfolding_all decide
  have hupper : onePointNine.admits (Version.read "1.9") = true := by with_unfolding_all decide
  have habove : Version.read "1.2" ≤ Version.read "1.3.rc1" := by with_unfolding_all decide
  have hbelow : Version.read "1.3.rc1" ≤ Version.read "1.9" := by with_unfolding_all decide
  obtain ⟨hequal, hconvex⟩ := denotes_range onePointNine
  exact ⟨rfl, hequal _ _ hzero, hconvex hne _ _ _ habove hbelow hlower hupper⟩

end Requirement

end UpdatePlanner
