import UpdatePlanner.Proofs.Ignore.Coverage

/-!
# What derived ranges leave out

The ranges of a numbered version are meant to meet: the patch range to begin behind the version in
use, and each line with the lowest word. Both ends are a little too high. Behind a version in use `1.2.3`
come `1.2.3.0.1` and, by its update number, `1.2.3_1`, and both are below `1.2.3.1.a`. Before
`1.3.a` come `1.3.RC1`, as words are compared by their characters, and `1.3.a.b`.

## Main definitions

* `NumberedVersion.IsPatch`: a candidate above a version in its minor line
* `NumberedVersion.DiffersNearby`: a candidate that differs from a version not far behind it

## Main results

* `NumberedVersion.patch_covers_iff`: the numeric versions in the patch range, and those in no range
* `NumberedVersion.covers_line_iff`: the versions of a line in the range that begins with it
-/

namespace UpdatePlanner

open Segment

/-! ## Behind the version in use -/

namespace NumberedVersion

variable (v : NumberedVersion)

/-- The candidate differs from the version at one of its places, or at the one behind them. -/
def DiffersNearby (w : String) : Prop :=
  ∃ i ≤ v.numerals.length, slot (Version.read w).segments i ≠ slot (Version.read v.text).segments i

/-- The candidate is above the version in its minor line. -/
structure IsPatch (w : String) : Prop where
  above : Version.read v.text < Version.read w
  major : slot (Version.read w).segments 0 = slot (Version.read v.text).segments 0
  minor : slot (Version.read w).segments 1 = slot (Version.read v.text).segments 1

variable {v} {w : String}

theorem isPatch_iff {m n : Nat} (hm : slot (Version.read w).segments 0 = .number m)
    (hn : slot (Version.read w).segments 1 = .number n) :
    v.IsPatch w ↔ Version.read v.text < Version.read w ∧ m = v.major ∧ n = v.minor := by
  constructor
  · rintro ⟨habove, hmajor, hminor⟩
    rw [hm, v.slot_zero_read_text, number.injEq] at hmajor
    rw [hn, v.slot_one_read_text, number.injEq] at hminor
    exact ⟨habove, hmajor, hminor⟩
  · rintro ⟨habove, rfl, rfl⟩
    exact ⟨habove, hm.trans v.slot_zero_read_text.symm, hn.trans v.slot_one_read_text.symm⟩

/-- Of versions that differ nearby the segments tell which one is above. -/
theorem DiffersNearby.lt_iff (h : v.DiffersNearby w) :
    Version.read v.text < Version.read w ↔
      orderAll (Version.read w).segments (Version.read v.text).segments = .gt := by
  obtain ⟨i, -, hne⟩ := h
  exact Version.lt_iff_of_slot_ne hne

section Numeric

variable (hrest : v.rest ≠ []) (hw : (Version.read w).isNumeric = true) (reach : Reach)
include hrest hw

/-- The patch range holds the numeric versions in the minor line that differ nearby. -/
theorem covers_patch_iff_of_isNumeric :
    UpdateKind.patch.covers reach v.text w = true ↔ v.IsPatch w ∧ v.DiffersNearby w := by
  have hnumbers := List.all_eq_true.mp hw
  obtain ⟨m, hm⟩ := exists_slot_number hnumbers 0
  obtain ⟨n, hn⟩ := exists_slot_number hnumbers 1
  have hline : orderAll (Version.read w).segments [.number v.major, .number (v.minor + 1)] = .lt ↔
      m < v.major ∨ m = v.major ∧ n < v.minor + 1 := by
    rw [orderAll_eq_lt_iff_of_slots hm (slot_cons_zero _ _), List.tail_cons,
      orderAll_number_eq_lt_iff (isNumber_of_mem_tail hnumbers) ((slot_tail _ _).trans hn)]
  rw [covers_patch_iff v w hrest, successor_le_iff hnumbers, v.length_numbers,
    ← v.segments_read_text, hline, isPatch_iff hm hn]
  constructor
  · -- From below the order keeps the first two numbers in place, from above the upper end does.
    rintro ⟨⟨hgt, hdiffers⟩, hlt⟩
    have habove := (DiffersNearby.lt_iff hdiffers).mpr hgt
    have horder := v.major_lt_or_minor_le hm hn habove
    exact ⟨⟨habove, by omega, by omega⟩, hdiffers⟩
  · rintro ⟨⟨habove, hmajor, hminor⟩, hdiffers⟩
    exact ⟨⟨hdiffers.lt_iff.mp habove, hdiffers⟩, by omega⟩

/-- **The patch range, and what no range holds**: the patch range misses the versions of the minor
line that differ from the version in use only further behind or by their update number, and of all
numeric versions above it these alone are in none of the three ranges. -/
theorem patch_covers_iff :
    (UpdateKind.patch.covers reach v.text w = true ↔ v.IsPatch w ∧ v.DiffersNearby w) ∧
      (Version.read v.text < Version.read w →
        (UpdateKind.patch.covers reach v.text w = true ∨
            UpdateKind.minor.covers reach v.text w = true ∨
            UpdateKind.major.covers .unbounded v.text w = true ↔
          v.DiffersNearby w)) := by
  have hpatch := covers_patch_iff_of_isNumeric hrest hw reach
  refine ⟨hpatch, ?_⟩
  intro habove
  have hnumbers := List.all_eq_true.mp hw
  obtain ⟨m, hm⟩ := exists_slot_number hnumbers 0
  obtain ⟨n, hn⟩ := exists_slot_number hnumbers 1
  rw [hpatch, isPatch_iff hm hn, v.covers_minor_iff_of_isNumeric hw hm hn,
    v.covers_major_unbounded_iff_of_isNumeric hw hm]
  constructor
  · rintro (⟨-, hdiffers⟩ | ⟨-, hlt⟩ | hlt)
    · exact hdiffers
    · refine ⟨1, v.one_le_length, ?_⟩
      rw [hn, v.slot_one_read_text, ne_eq, number.injEq]
      omega
    · refine ⟨0, Nat.zero_le _, ?_⟩
      rw [hm, v.slot_zero_read_text, ne_eq, number.injEq]
      omega
  · -- The first two numbers name the range: it is the patch range only if neither has changed.
    intro hdiffers
    rcases v.major_lt_or_minor_le hm hn habove with hlt | ⟨hmajor, hle⟩
    · exact .inr (.inr hlt)
    · rcases Nat.lt_or_eq_of_le hle with hlt | hminor
      · exact .inr (.inl ⟨hmajor.symm, hlt⟩)
      · exact .inl ⟨⟨habove, hmajor.symm, hminor.symm⟩, hdiffers⟩

end Numeric

/-- Two versions above the one in use, in its minor line, that are in none of its ranges. The first
continues with a zero, the second has a later update number. -/
theorem covers_patch_continuations :
    (Version.read "1.2.3" < Version.read "1.2.3.0.1" ∧
        (∀ i < 2, slot (Version.read "1.2.3.0.1").segments i =
          slot (Version.read "1.2.3").segments i) ∧
        UpdateKind.patch.covers .nextLine "1.2.3" "1.2.3.0.1" = false ∧
        UpdateKind.minor.covers .nextLine "1.2.3" "1.2.3.0.1" = false ∧
        UpdateKind.major.covers .unbounded "1.2.3" "1.2.3.0.1" = false) ∧
      Version.read "1.8.0_202" < Version.read "1.8.0_212" ∧
        (∀ i < 2, slot (Version.read "1.8.0_212").segments i =
          slot (Version.read "1.8.0_202").segments i) ∧
        UpdateKind.patch.covers .nextLine "1.8.0_202" "1.8.0_212" = false ∧
        UpdateKind.minor.covers .nextLine "1.8.0_202" "1.8.0_212" = false ∧
        UpdateKind.major.covers .unbounded "1.8.0_202" "1.8.0_212" = false := by
  with_unfolding_all decide

theorem patch_covers_iff_oneTwoThree :
    oneTwoThree.rest ≠ [] ∧ (Version.read "1.2.3.0.1").isNumeric = true ∧
      (UpdateKind.patch.covers .nextLine oneTwoThree.text "1.2.3.0.1" = true ↔
        oneTwoThree.IsPatch "1.2.3.0.1" ∧ oneTwoThree.DiffersNearby "1.2.3.0.1") ∧
      (Version.read oneTwoThree.text < Version.read "1.2.3.0.1" →
        (UpdateKind.patch.covers .nextLine oneTwoThree.text "1.2.3.0.1" = true ∨
            UpdateKind.minor.covers .nextLine oneTwoThree.text "1.2.3.0.1" = true ∨
            UpdateKind.major.covers .unbounded oneTwoThree.text "1.2.3.0.1" = true ↔
          oneTwoThree.DiffersNearby "1.2.3.0.1")) := by
  have hrest : oneTwoThree.rest ≠ [] := by decide
  have hnumeric : (Version.read "1.2.3.0.1").isNumeric = true := by with_unfolding_all decide
  exact ⟨hrest, hnumeric, patch_covers_iff hrest hnumeric .nextLine⟩

end NumberedVersion

/-! ## Before the first number of a line -/

/-- Behind the first segment of a version every word begins with a letter. -/
theorem Version.exists_letter_of_mem_segments {raw : String} {s : Segment} {rest : List Segment}
    (h : (Version.read raw).segments = s :: rest) {w : String} (hw : .word w ∈ rest) :
    ∃ c cs, w = String.ofList (c :: cs) ∧ c.isAlpha = true := by
  rw [segments_read, releaseSegments] at h
  split at h
  · obtain ⟨-, rfl⟩ := List.cons.inj h
    cases hw
  · next t ts hscan =>
    obtain ⟨-, rfl⟩ := List.cons.inj h
    exact exists_letter_of_mem_scan (hscan ▸ List.mem_cons_of_mem t hw)

namespace NumberedVersion

variable (v : NumberedVersion)

/-- **The lines that the ranges begin with**: the minor range holds every version of a later minor
line, and the range of the next major line every version of that line, except for those of the
first line that stand below the lowest word. -/
theorem covers_line_iff (w : String) (reach : Reach) :
    (∀ k rest, (Version.read w).segments = .number v.major :: .number k :: rest → v.minor < k →
        (UpdateKind.minor.covers reach v.text w = true ↔ (k = v.minor + 1 → ¬ BelowLowest rest))) ∧
      ∀ rest, (Version.read w).segments = .number (v.major + 1) :: rest →
        (UpdateKind.major.covers .nextLine v.text w = true ↔ ¬ BelowLowest rest) := by
  constructor
  · intro k rest hw hk
    have hlowest : orderAll rest [.word "a"] = .lt ↔ BelowLowest rest := by
      apply orderAll_lowest_eq_lt_iff
      intro a ha
      exact Version.exists_letter_of_mem_segments hw (List.mem_cons_of_mem _ ha)
    have hupper := orderAll_number_number (Nat.lt_succ_self v.major) (.number k :: rest) []
    have hminor : orderAll (.number k :: rest) [.number (v.minor + 1), .word "a"] = .lt ↔
        k = v.minor + 1 ∧ BelowLowest rest := by
      rw [orderAll_eq_lt_iff_of_slots (slot_cons_zero _ _) (slot_cons_zero _ _),
        or_iff_right (Nat.not_lt_of_le hk), List.tail_cons, List.tail_cons, hlowest]
    rw [covers_minor_iff, hw, and_iff_left hupper, orderAll_cons_cons, order_self,
      Ordering.eq_then, ne_eq, hminor, not_and]
  · intro rest hw
    have hlowest : orderAll rest [.word "a"] = .lt ↔ BelowLowest rest := by
      apply orderAll_lowest_eq_lt_iff
      intro a ha
      exact Version.exists_letter_of_mem_segments hw ha
    have hupper := orderAll_number_number (Nat.lt_succ_self (v.major + 1)) rest []
    rw [covers_major_nextLine_iff, hw, and_iff_left hupper, orderAll_cons_cons, order_self,
      Ordering.eq_then, ne_eq, hlowest]

/-- Pre-releases of later lines. Where a line is continued by a capital letter, or by something
behind the lowest word, they are in no range; a number in front of the word brings them back. -/
theorem covers_line_prereleases :
    ((Version.read "1.3.RC1").segments = [.number 1, .number 3, .word "RC", .number 1] ∧
        UpdateKind.minor.covers .nextLine "1.2.3" "1.3.RC1" = false) ∧
      ((Version.read "1.3.a.b").segments = [.number 1, .number 3, .word "a", .word "b"] ∧
        UpdateKind.minor.covers .nextLine "1.2.3" "1.3.a.b" = false) ∧
      ((Version.read "2.0.M1").segments = [.number 2, .number 0, .word "M", .number 1] ∧
        UpdateKind.major.covers .nextLine "1.2.3" "2.0.M1" = true) ∧
      (Version.read "2.M1").segments = [.number 2, .word "M", .number 1] ∧
        UpdateKind.major.covers .nextLine "1.2.3" "2.M1" = false := by
  with_unfolding_all decide

theorem covers_line_iff_oneTwoThree :
    ((Version.read "1.3.RC1").segments =
          .number oneTwoThree.major :: .number 3 :: [.word "RC", .number 1] ∧
        oneTwoThree.minor < 3 ∧
        (UpdateKind.minor.covers .nextLine oneTwoThree.text "1.3.RC1" = true ↔
          (3 = oneTwoThree.minor + 1 → ¬ BelowLowest [.word "RC", .number 1]))) ∧
      (Version.read "2.0.M1").segments =
          .number (oneTwoThree.major + 1) :: [.number 0, .word "M", .number 1] ∧
        (UpdateKind.major.covers .nextLine oneTwoThree.text "2.0.M1" = true ↔
          ¬ BelowLowest [.number 0, .word "M", .number 1]) := by
  have hminor : (Version.read "1.3.RC1").segments =
      .number oneTwoThree.major :: .number 3 :: [.word "RC", .number 1] := by
    with_unfolding_all decide
  have hmajor : (Version.read "2.0.M1").segments =
      .number (oneTwoThree.major + 1) :: [.number 0, .word "M", .number 1] := by
    with_unfolding_all decide
  have hlater : oneTwoThree.minor < 3 := by decide
  exact ⟨⟨hminor, hlater, (oneTwoThree.covers_line_iff "1.3.RC1" .nextLine).1 3 _ hminor hlater⟩,
    hmajor, (oneTwoThree.covers_line_iff "2.0.M1" .nextLine).2 _ hmajor⟩

end NumberedVersion

end UpdatePlanner
