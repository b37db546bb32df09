import UpdatePlanner.Proofs.Version.Order
import UpdatePlanner.Proofs.Version.Scan

/-!
# Releases slot by slot

Where a release stands is decided at the first slot at which it differs. This module says what
that means for the lists that ranges are bounded by: zero, the lowest word, and numbers with
something low behind them.

## Main definitions

* `BelowZero segments`: zeros, and then a word
* `BelowLowest segments`: a word with a capital first letter, or the lowest word with something
  below zero behind it

## Main results

* `Segment.slot_eq_of_orderAll_eq`: equal lists have equal slots
* `Segment.orderAll_eq_lt_iff_of_slots`: lists that begin with numbers
* `orderZeros_eq_lt_iff`: the lists below zero
* `orderAll_lowest_eq_lt_iff`: the lists below the lowest word
* `Segment.successor_le_iff`: the lists that are no lower than numbers with `1.a` behind them
-/

namespace UpdatePlanner

open Text Segment

/-! ## Slots -/

namespace Segment

theorem slot_tail (ss : List Segment) (i : Nat) : slot ss.tail i = slot ss (i + 1) := by
  cases ss <;> simp

/-- Equal lists have equal slots. -/
theorem slot_eq_of_orderAll_eq {as bs : List Segment} (h : orderAll as bs = .eq) (i : Nat) :
    slot as i = slot bs i := by
  rw [orderAll_eq_then, Ordering.then_eq_eq] at h
  induction i generalizing as bs with
  | zero => exact Std.LawfulEqCmp.eq_of_compare h.1
  | succ i ih =>
    rw [← slot_tail, ← slot_tail]
    apply ih
    rw [← Ordering.then_eq_eq, ← orderAll_eq_then]
    exact h.2

section Slots

variable {as bs : List Segment} {m n : Nat} (ha : slot as 0 = .number m)
  (hb : slot bs 0 = .number n)
include ha hb

/-- Lists that begin with numbers are compared by these first. -/
theorem orderAll_of_slots :
    orderAll as bs = (compare m n).then (orderAll as.tail bs.tail) := by
  rw [orderAll_eq_then, ha, hb]
  rfl

theorem orderAll_eq_lt_iff_of_slots :
    orderAll as bs = .lt ↔ m < n ∨ m = n ∧ orderAll as.tail bs.tail = .lt := by
  rw [orderAll_of_slots ha hb, Ordering.then_eq_lt, Nat.compare_eq_lt, Nat.compare_eq_eq]

theorem orderAll_eq_gt_iff_of_slots :
    orderAll as bs = .gt ↔ n < m ∨ m = n ∧ orderAll as.tail bs.tail = .gt := by
  rw [orderAll_of_slots ha hb, Ordering.then_eq_gt, Nat.compare_eq_gt, Nat.compare_eq_eq]

end Slots

/-- Of two lists in order, the first numbers are in order, and the second ones are if these
agree. -/
theorem first_slots_of_isLE {as bs : List Segment} {m n m' n' : Nat}
    (hm : slot as 0 = .number m) (hn : slot as 1 = .number n) (hm' : slot bs 0 = .number m')
    (hn' : slot bs 1 = .number n') (h : (orderAll as bs).isLE = true) :
    m < m' ∨ m = m' ∧ n ≤ n' := by
  rw [← slot_tail] at hn hn'
  have hne : orderAll as bs ≠ .gt := by
    intro hgt
    rw [hgt] at h
    cases h
  rw [ne_eq, orderAll_eq_gt_iff_of_slots hm hm', orderAll_eq_gt_iff_of_slots hn hn'] at hne
  omega

/-- A difference of lists that begin alike is one behind their beginning. -/
theorem exists_slot_ne_cons_iff {as : List Segment} {n : Nat} {ns : List Nat}
    (hn : slot as 0 = .number n) :
    (∃ i ≤ (n :: ns).length, slot as i ≠ slot ((n :: ns).map .number) i) ↔
      ∃ i ≤ ns.length, slot as.tail i ≠ slot (ns.map .number) i := by
  constructor
  · rintro ⟨i, hi, hne⟩
    cases i with
    | zero => exact absurd hn hne
    | succ i =>
      rw [← slot_tail, List.map_cons, slot_cons_succ] at hne
      exact ⟨i, Nat.le_of_succ_le_succ hi, hne⟩
  · rintro ⟨i, hi, hne⟩
    refine ⟨i + 1, Nat.succ_le_succ hi, ?_⟩
    rwa [← slot_tail, List.map_cons, slot_cons_succ]

end Segment

/-- Between versions that differ at some place, the segments decide. -/
theorem Version.lt_iff_of_slot_ne {v w : Version} {i : Nat}
    (h : slot w.segments i ≠ slot v.segments i) :
    v < w ↔ orderAll w.segments v.segments = .gt := by
  have hne : orderAll v.segments w.segments ≠ .eq := by
    intro heq
    exact h (slot_eq_of_orderAll_eq heq i).symm
  have hlt : v < w ↔ compare v w = .lt := Iff.rfl
  rw [hlt, compare_def, orderAll_swap w.segments, Ordering.swap_eq_gt]
  cases ho : orderAll v.segments w.segments with
  | eq => exact absurd ho hne
  | lt => simp
  | gt => simp

/-! ## Below zero -/

/-- Zeros, and then a word. -/
inductive BelowZero : List Segment → Prop
  | word (w : String) (rest : List Segment) : BelowZero (.word w :: rest)
  | zero {rest : List Segment} (h : BelowZero rest) : BelowZero (.number 0 :: rest)

theorem orderZeros_eq_lt_iff {ss : List Segment} : orderZeros ss = .lt ↔ BelowZero ss := by
  constructor
  · intro h
    induction ss with
    | nil => cases h
    | cons s ss ih =>
      cases s with
      | word w => exact .word w ss
      | number n =>
        cases n with
        | zero => exact .zero (ih h)
        | succ n => cases h
  · intro h
    induction h with
    | word w rest => rfl
    | zero h ih => exact ih

theorem orderAll_zero (ss : List Segment) : orderAll ss [.number 0] = orderZeros ss := by
  cases ss with
  | nil => rfl
  | cons s ss => rw [orderAll_cons_cons, orderAll_nil_right, orderZeros]

/-- A version below zero is a pre-release. -/
theorem BelowZero.all_isNumber {ss : List Segment} (h : BelowZero ss) :
    ss.all isNumber = false := by
  induction h with
  | word w rest => rfl
  | zero h ih => exact ih

/-- What is no higher than a version below zero is below zero, too. -/
theorem BelowZero.of_isLE {as bs : List Segment} (h : BelowZero bs)
    (hle : (orderAll as bs).isLE = true) : BelowZero as := by
  rw [← orderZeros_eq_lt_iff, ← orderAll_nil_right] at h ⊢
  exact Std.TransCmp.lt_of_isLE_of_lt hle h

/-! ## Below the lowest word -/

/-- A word with a capital first letter, or the lowest word with something below zero behind it. -/
inductive BelowLowest : List Segment → Prop
  | capital {c : Char} (h : c.isUpper = true) (cs : List Char) (rest : List Segment) :
      BelowLowest (.word (String.ofList (c :: cs)) :: rest)
  | lowest {rest : List Segment} (h : BelowZero rest) : BelowLowest (.word "a" :: rest)

/-- Of the letters, the capital ones stand below `a`. -/
theorem lt_a_iff_isUpper {c : Char} (h : c.isAlpha = true) : c < 'a' ↔ c.isUpper = true := by
  have hZ : 'Z'.val.toNat = 90 := rfl
  have ha : 'a'.val.toNat = 97 := rfl
  unfold Char.isAlpha Char.isUpper Char.isLower at h
  unfold Char.isUpper
  simp only [Bool.or_eq_true, Bool.and_eq_true, decide_eq_true_eq, ge_iff_le,
    UInt32.le_iff_toNat_le] at h ⊢
  rw [Char.lt_def, UInt32.lt_iff_toNat_lt]
  omega

theorem compare_a_eq_lt_iff {c : Char} (h : c.isAlpha = true) (cs : List Char) :
    compare (String.ofList (c :: cs)) "a" = .lt ↔ c.isUpper = true := by
  have hlt : compare (String.ofList (c :: cs)) "a" = .lt ↔ String.ofList (c :: cs) < "a" :=
    compareOfLessAndEq_eq_lt
  have ha : "a".toList = ['a'] := rfl
  rw [hlt, String.lt_iff, String.toList_ofList, ha, List.cons_lt_cons_iff, ← lt_a_iff_isUpper h]
  simp

/-- **The lists below the lowest word**, among those whose words begin with letters. -/
theorem orderAll_lowest_eq_lt_iff {ss : List Segment}
    (h : ∀ w, .word w ∈ ss → ∃ c cs, w = String.ofList (c :: cs) ∧ c.isAlpha = true) :
    orderAll ss [.word "a"] = .lt ↔ BelowLowest ss := by
  cases ss with
  | nil =>
    refine iff_of_false (by decide) ?_
    intro hbelow
    cases hbelow
  | cons s ss =>
    cases s with
    | number n =>
      refine iff_of_false (by simp [order]) ?_
      intro hbelow
      cases hbelow
    | word w =>
      obtain ⟨c, cs, rfl, hc⟩ := h w List.mem_cons_self
      rw [orderAll_cons_cons, order, Ordering.then_eq_lt, orderAll_nil_right, orderZeros_eq_lt_iff,
        compare_a_eq_lt_iff hc, Std.LawfulEqCmp.compare_eq_iff_eq]
      constructor
      · rintro (hupper | ⟨ha, hzero⟩)
        · exact .capital hupper cs ss
        · exact ha ▸ .lowest hzero
      · intro hbelow
        generalize hw : String.ofList (c :: cs) = w at hbelow ⊢
        cases hbelow with
        | capital hupper cs' rest =>
          obtain ⟨rfl, -⟩ := List.cons.inj (String.ofList_injective hw)
          exact .inl hupper
        | lowest hzero => exact .inr ⟨rfl, hzero⟩

/-! ## Numbers alone -/

namespace Segment

section Numbers

variable {as : List Segment} (h : ∀ s ∈ as, s.isNumber = true)
include h

theorem exists_slot_number (i : Nat) : ∃ n, slot as i = .number n := by
  unfold slot
  cases hi : as[i]? with
  | none => exact ⟨0, rfl⟩
  | some s =>
    have hs := h s (List.mem_of_getElem? hi)
    cases s with
    | number n => exact ⟨n, rfl⟩
    | word w => cases hs

theorem isNumber_of_mem_tail : ∀ s ∈ as.tail, s.isNumber = true := by
  intro s hs
  exact h s (List.mem_of_mem_tail hs)

/-- Numbers stand above every word. -/
theorem orderAll_word_of_numbers (w : String) (rest : List Segment) :
    orderAll as (.word w :: rest) = .gt := by
  cases as with
  | nil => rfl
  | cons s ss =>
    have hs := h s List.mem_cons_self
    cases s with
    | number n => rfl
    | word w => cases hs

/-- Numbers are not below zero. -/
theorem orderAll_nil_ne_lt_of_numbers : orderAll as [] ≠ .lt := by
  rw [orderAll_nil_right, ne_eq, orderZeros_eq_lt_iff]
  intro hbelow
  exact absurd (List.all_eq_true.mpr h) (by simp [hbelow.all_isNumber])

section First

variable {m : Nat} (hm : slot as 0 = .number m) (n : Nat)
include hm

/-- Among numbers a line begins with its first number. -/
theorem orderAll_number_eq_lt_iff : orderAll as [.number n] = .lt ↔ m < n := by
  rw [orderAll_eq_lt_iff_of_slots hm (slot_cons_zero _ _), List.tail_cons, or_iff_left_iff_imp]
  rintro ⟨-, hlt⟩
  exact absurd hlt (orderAll_nil_ne_lt_of_numbers (isNumber_of_mem_tail h))

/-- The lowest word does not move the beginning of a line among numbers. -/
theorem orderAll_number_word_eq_lt_iff (w : String) :
    orderAll as [.number n, .word w] = .lt ↔ m < n := by
  rw [orderAll_eq_lt_iff_of_slots hm (slot_cons_zero _ _), List.tail_cons,
    orderAll_word_of_numbers (isNumber_of_mem_tail h), or_iff_left_iff_imp]
  rintro ⟨-, hgt⟩
  cases hgt

end First

/-- **The numbers that are no lower than given ones with `1.a` behind them**: they are above these,
and differ from them at one of their places or at the one behind. -/
theorem successor_le_iff (ns : List Nat) :
    orderAll as (ns.map number ++ [number 1, word "a"]) ≠ .lt ↔
      orderAll as (ns.map number) = .gt ∧
        ∃ i ≤ ns.length, slot as i ≠ slot (ns.map number) i := by
  induction ns generalizing as with
  | nil =>
    obtain ⟨m, hm⟩ := exists_slot_number h 0
    have hword := orderAll_word_of_numbers (isNumber_of_mem_tail h) "a" []
    rw [List.map_nil, List.nil_append, ne_eq,
      orderAll_eq_lt_iff_of_slots hm (slot_cons_zero _ _), List.tail_cons, hword,
      orderAll_eq_gt_iff_of_slots hm (slot_nil 0)]
    rcases Nat.eq_zero_or_pos m with rfl | hpos
    · refine iff_of_false (fun hle => hle (.inl Nat.zero_lt_one)) ?_
      rintro ⟨-, i, hi, hne⟩
      obtain rfl : i = 0 := Nat.le_zero.mp hi
      exact hne hm
    · apply iff_of_true
      · rintro (hlt | ⟨-, hgt⟩)
        · omega
        · cases hgt
      · refine ⟨.inl hpos, 0, Nat.le_refl 0, ?_⟩
        rw [hm, slot_nil, ne_eq, number.injEq]
        omega
  | cons n ns ih =>
    obtain ⟨m, hm⟩ := exists_slot_number h 0
    rw [List.map_cons, List.cons_append, ne_eq,
      orderAll_eq_lt_iff_of_slots hm (slot_cons_zero _ _),
      orderAll_eq_gt_iff_of_slots hm (slot_cons_zero _ _), List.tail_cons, List.tail_cons,
      ← List.map_cons]
    rcases Nat.lt_trichotomy m n with hlt | rfl | hgt
    · refine iff_of_false (fun hle => hle (.inl hlt)) ?_
      rintro ⟨hgt | ⟨rfl, -⟩, -⟩ <;> omega
    · rw [exists_slot_ne_cons_iff hm]
      simpa using ih (isNumber_of_mem_tail h)
    · -- The first places settle both sides.
      apply iff_of_true
      · rintro (hlt | ⟨rfl, -⟩) <;> omega
      · refine ⟨.inl hgt, 0, Nat.zero_le _, ?_⟩
        rw [hm, List.map_cons, slot_cons_zero, ne_eq, number.injEq]
        omega

end Numbers

end Segment

end UpdatePlanner
