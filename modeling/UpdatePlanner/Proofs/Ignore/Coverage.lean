import UpdatePlanner.Proofs.Ignore.Reading
import UpdatePlanner.Proofs.Version.Numbered
import UpdatePlanner.Proofs.Version.Slots

/-!
# What the ranges of numbered versions hold

The boundaries of a numbered version are its first numbers, the next one raised, and for a lower
end the lowest word. So the ranges that are derived from it compare a candidate with its numbers.

## Main definitions

* `UpdateKind.covers`: whether the range of a kind of update holds a candidate

## Main results

* `NumberedVersion.segments_boundary`: the boundaries of a numbered version
* `NumberedVersion.covers_patch_iff`, `NumberedVersion.covers_minor_iff`,
  `NumberedVersion.covers_major_unbounded_iff`, `NumberedVersion.covers_major_nextLine_iff`: the
  candidates between them
-/

namespace UpdatePlanner

open Text Segment Version

/-! ## Candidates in a range -/

/-- Whether the range of a kind of update above the version in use can be read, and holds a
candidate. -/
def UpdateKind.covers (kind : UpdateKind) (reach : Reach) (current candidate : String) : Bool :=
  match Range.ofKind kind current reach with
  | none => false
  | some r =>
    match Requirement.read? r.render with
    | .ok q => q.admits (Version.read candidate)
    | .error _ => false

/-- A version that hides no operator has ranges that hold what lies between their ends. -/
theorem UpdateKind.covers_iff {kind : UpdateKind} {reach : Reach} {current candidate : String}
    (hop : hidesOperator current = false) :
    kind.covers reach current candidate = true ↔
      ∃ r, Range.ofKind kind current reach = some r ∧
        r.Spans (Version.read candidate).segments := by
  unfold covers
  cases hr : Range.ofKind kind current reach with
  | none => simp
  | some r =>
    have hread := Range.read?_render_of_ofKind hr
    rw [hop, if_neg Bool.false_ne_true] at hread
    simp only [hread, Option.some.injEq, exists_eq_left']
    exact (Range.hasDottedEnds_of_ofKind hr).admits_iff_spans hread _

namespace Range

variable {lower upper : String} {segments : List Segment}

theorem spans_none_iff :
    (Range.mk lower none).Spans segments ↔
      orderAll segments (Version.read lower).segments ≠ .lt := by
  simp [Spans]

theorem spans_some_iff :
    (Range.mk lower (some upper)).Spans segments ↔
      orderAll segments (Version.read lower).segments ≠ .lt ∧
        orderAll segments (Version.read upper).segments = .lt := by
  simp [Spans]

end Range

namespace Version

/-- Where the first part has no mark, a text has the segments of its parts. -/
theorem partsSegments_eq_flatMap {parts : List (List Char)}
    (h : ∀ p ∈ parts.head?, dropMark p = p) : partsSegments parts = parts.flatMap scan := by
  cases parts with
  | nil => rfl
  | cons p ps => rw [partsSegments, h p rfl, List.flatMap_cons]

end Version

namespace NumberedVersion

variable (v : NumberedVersion)

/-! ## Boundaries -/

theorem hidesOperator_text : hidesOperator v.text = false := by
  rw [← beginsWithOperator_part v.partsOf_text]
  exact beginsWithOperator_of_isDigits (v.isDigits_numeral v.first List.mem_cons_self)

theorem exists_boundary {depth : Nat} (h : depth ≤ v.numerals.length) (side : Side) :
    ∃ text, nextBoundary v.text depth side = some text := by
  rw [← v.partsOf_text] at h
  exact exists_nextBoundary_of_le (by simp [v.partsOf_text, numerals]) h side

theorem one_le_length : 1 ≤ v.numerals.length := by
  simp [numerals]

/-- At each depth the number is raised, zero where there is none. -/
theorem exists_boundaryTail (depth : Nat) (side : Side) :
    ∃ q, boundaryTail v.numerals[depth]? depth side = [q] ∧ isDigits q = true ∧
      scan q = [.number (v.numbers[depth]?.getD 0 + 1)] := by
  rw [numbers, List.getElem?_map]
  cases hn : v.numerals[depth]? with
  | none => exact ⟨['1'], rfl, rfl, scan_one⟩
  | some n =>
    have hmem : n ∈ v.numerals := List.mem_of_getElem? hn
    have hraise := raisePart_numeral hmem
    obtain ⟨-, hdigits, m, hm, hnext⟩ := scan_of_raisePart hraise
    obtain rfl : digitsValue n = m := by simpa [scan_numeral hmem] using hm
    exact ⟨_, boundaryTail_of_raise hraise depth side, hdigits, hnext⟩

/-- **The boundaries of a numbered version** are its first numbers and the next one raised, with
the lowest word behind it at a lower end. -/
theorem segments_boundary {text : String} {depth : Nat} {side : Side}
    (h : nextBoundary v.text depth side = some text) :
    (Version.read text).segments =
      (v.numbers.take depth).map .number ++
        .number (v.numbers[depth]?.getD 0 + 1) :: raisedEnd side := by
  obtain ⟨q, htail, hdigits, hq⟩ := v.exists_boundaryTail depth side
  have hmark : ∀ p ∈ (boundaryLine v.numerals depth side).head?, dropMark p = p := by
    intro p hp
    cases depth with
    | zero =>
      obtain rfl : q = p := by simpa [boundaryLine, htail] using hp
      exact dropMark_of_isDigits hdigits
    | succ depth =>
      obtain rfl : v.first = p := by simpa [boundaryLine, numerals] using hp
      exact dropMark_of_isDigits (v.isDigits_numeral v.first List.mem_cons_self)
  have htake := v.flatMap_scan_of_subset (List.take_subset depth v.numerals)
  rw [segments_of_nextBoundary h, v.partsOf_text, partsSegments_eq_flatMap hmark]
  unfold boundaryLine
  rw [htail, List.flatMap_append, List.flatMap_append, htake, List.map_take, ← numbers,
    List.flatMap_singleton, hq, List.append_assoc]
  cases side <;> simp [raisedEnd]

theorem getD_one_numbers : v.numbers[1]?.getD 0 = v.minor := by
  simp [numbers, numerals, minor, List.head?_eq_getElem?]

theorem slot_zero_read_text : slot (Version.read v.text).segments 0 = .number v.major := by
  rw [v.segments_read_text]
  rfl

theorem slot_one_read_text : slot (Version.read v.text).segments 1 = .number v.minor := by
  rw [v.segments_read_text, slot, List.getElem?_map, ← v.getD_one_numbers]
  cases v.numbers[1]? <;> rfl

section Lines

variable {text : String} {side : Side}

theorem segments_majorBoundary (h : nextBoundary v.text 0 side = some text) :
    (Version.read text).segments = .number (v.major + 1) :: raisedEnd side := by
  rw [v.segments_boundary h]
  rfl

theorem segments_minorBoundary (h : nextBoundary v.text 1 side = some text) :
    (Version.read text).segments =
      .number v.major :: .number (v.minor + 1) :: raisedEnd side := by
  rw [v.segments_boundary h, v.getD_one_numbers]
  rfl

/-- Behind all numbers stands a one. -/
theorem segments_lastBoundary (h : nextBoundary v.text v.numerals.length side = some text) :
    (Version.read text).segments = v.numbers.map .number ++ .number 1 :: raisedEnd side := by
  rw [v.segments_boundary h, ← v.length_numbers, List.take_length,
    List.getElem?_eq_none (Nat.le_refl _)]
  rfl

theorem exists_secondBoundary {next : String} (hnext : nextBoundary v.text 0 .upper = some next) :
    ∃ text, nextBoundary next 0 .upper = some text := by
  obtain ⟨q, qs, -, hparts⟩ := partsOf_nextBoundary v.partsOf_text hnext
    ((beginsWithOperator_part v.partsOf_text).trans v.hidesOperator_text)
  exact exists_nextBoundary hparts (Nat.zero_le 1) .upper

/-- The boundary behind the next major line is the line after it. -/
theorem segments_secondBoundary {next : String} (hnext : nextBoundary v.text 0 .upper = some next)
    (h : nextBoundary next 0 .upper = some text) :
    (Version.read text).segments = [.number (v.major + 2)] := by
  have hop : beginsWithOperator v.first = false :=
    (beginsWithOperator_part v.partsOf_text).trans v.hidesOperator_text
  obtain ⟨q, qs, hline, hparts⟩ := partsOf_nextBoundary v.partsOf_text hnext hop
  -- The next line has one part, which is a number again.
  have hraise := raisePart_numeral (v := v) (n := v.first) List.mem_cons_self
  obtain ⟨rfl, rfl⟩ : digits (v.major + 1) = q ∧ [] = qs := by
    simpa [boundaryLine, boundaryTail_of_raise hraise, major] using hline
  have hdigits := isDigits_digits (v.major + 1)
  have hle : v.major + 2 ≤ maxNumber := v.value_numeral v.first List.mem_cons_self
  rw [dropMark_of_isDigits hdigits] at hparts
  rcases segments_majorLine hparts h with ⟨n, -, hn, hl⟩ | ⟨hkeep, -⟩
  · rw [scan_digits hdigits, digitsValue_digits, clamp_eq_self (by omega), List.cons.injEq,
      number.injEq] at hn
    rw [hl, ← hn.1]
    rfl
  · have hvalue : digitsValue (digits (v.major + 1)) < maxNumber := by
      rw [digitsValue_digits]
      omega
    rw [raisePart_of_isDigits hdigits hvalue] at hkeep
    cases hkeep

end Lines

/-! ## Ranges -/

variable (w : String)

theorem covers_iff_spans {kind : UpdateKind} {reach : Reach} {r : Range}
    (hr : Range.ofKind kind v.text reach = some r) :
    kind.covers reach v.text w = true ↔ r.Spans (Version.read w).segments := by
  rw [UpdateKind.covers_iff v.hidesOperator_text, hr]
  simp

/-- The minor range begins with the next minor line, and ends before the next major one. -/
theorem covers_minor_iff (reach : Reach) :
    UpdateKind.minor.covers reach v.text w = true ↔
      orderAll (Version.read w).segments
          [.number v.major, .number (v.minor + 1), .word "a"] ≠ .lt ∧
        orderAll (Version.read w).segments [.number (v.major + 1)] = .lt := by
  obtain ⟨lower, hlower⟩ := v.exists_boundary v.one_le_length .lower
  obtain ⟨upper, hupper⟩ := v.exists_boundary (Nat.zero_le _) .upper
  have hr : Range.ofKind .minor v.text reach = some ⟨lower, some upper⟩ :=
    Range.minor_eq_some_iff.mpr ⟨hlower, upper, hupper, rfl⟩
  rw [v.covers_iff_spans w hr, Range.spans_some_iff, v.segments_minorBoundary hlower,
    v.segments_majorBoundary hupper]
  rfl

/-- The unbounded major range begins with the next major line. -/
theorem covers_major_unbounded_iff :
    UpdateKind.major.covers .unbounded v.text w = true ↔
      orderAll (Version.read w).segments [.number (v.major + 1), .word "a"] ≠ .lt := by
  obtain ⟨lower, hlower⟩ := v.exists_boundary (Nat.zero_le _) .lower
  have hr : Range.ofKind .major v.text .unbounded = some ⟨lower, none⟩ :=
    Range.major_unbounded_eq_some_iff.mpr ⟨hlower, rfl⟩
  rw [v.covers_iff_spans w hr, Range.spans_none_iff, v.segments_majorBoundary hlower]
  rfl

/-- The other major range ends before the major line after that. -/
theorem covers_major_nextLine_iff :
    UpdateKind.major.covers .nextLine v.text w = true ↔
      orderAll (Version.read w).segments [.number (v.major + 1), .word "a"] ≠ .lt ∧
        orderAll (Version.read w).segments [.number (v.major + 2)] = .lt := by
  obtain ⟨lower, hlower⟩ := v.exists_boundary (Nat.zero_le _) .lower
  obtain ⟨next, hnext⟩ := v.exists_boundary (Nat.zero_le _) .upper
  obtain ⟨upper, hupper⟩ := v.exists_secondBoundary hnext
  have hr : Range.ofKind .major v.text .nextLine = some ⟨lower, some upper⟩ :=
    Range.major_nextLine_eq_some_iff.mpr ⟨hlower, next, upper, hnext, hupper, rfl⟩
  rw [v.covers_iff_spans w hr, Range.spans_some_iff, v.segments_majorBoundary hlower,
    v.segments_secondBoundary hnext hupper]
  rfl

/-- The patch range of a version with two numbers begins behind the version with `1.a` behind it,
and ends before the next minor line. -/
theorem covers_patch_iff (hrest : v.rest ≠ []) (reach : Reach) :
    UpdateKind.patch.covers reach v.text w = true ↔
      orderAll (Version.read w).segments (v.numbers.map .number ++ [.number 1, .word "a"]) ≠ .lt ∧
        orderAll (Version.read w).segments [.number v.major, .number (v.minor + 1)] = .lt := by
  have hlength : max (partsOf v.text.toList).length 2 = v.numerals.length := by
    have hpos := List.length_pos_iff.mpr hrest
    rw [v.partsOf_text, numerals, List.length_cons]
    omega
  obtain ⟨lower, hlower⟩ := v.exists_boundary (Nat.le_refl _) .lower
  obtain ⟨upper, hupper⟩ := v.exists_boundary v.one_le_length .upper
  have hr : Range.ofKind .patch v.text reach = some ⟨lower, some upper⟩ := by
    apply Range.patch_eq_some_iff.mpr
    rw [hlength]
    exact ⟨hlower, upper, hupper, rfl⟩
  rw [v.covers_iff_spans w hr, Range.spans_some_iff, v.segments_lastBoundary hlower,
    v.segments_minorBoundary hupper]
  rfl

/-! ## Candidates without words -/

/-- A version above has a higher first number, or the same one and no lower second number. -/
theorem major_lt_or_minor_le {w : String} {m n : Nat}
    (hm : slot (Version.read w).segments 0 = .number m)
    (hn : slot (Version.read w).segments 1 = .number n)
    (habove : Version.read v.text < Version.read w) : v.major < m ∨ v.major = m ∧ v.minor ≤ n :=
  first_slots_of_isLE v.slot_zero_read_text v.slot_one_read_text hm hn
    (Version.orderAll_isLE_of_lt habove)

section Numeric

variable {w} (hw : (Version.read w).isNumeric = true) {m : Nat}
  (hm : slot (Version.read w).segments 0 = .number m)
include hw hm

theorem covers_minor_iff_of_isNumeric {n : Nat} (hn : slot (Version.read w).segments 1 = .number n)
    (reach : Reach) :
    UpdateKind.minor.covers reach v.text w = true ↔ m = v.major ∧ v.minor < n := by
  have hnumbers := List.all_eq_true.mp hw
  rw [← slot_tail] at hn
  rw [covers_minor_iff, orderAll_number_eq_lt_iff hnumbers hm, ne_eq,
    orderAll_eq_lt_iff_of_slots hm (slot_cons_zero _ _), List.tail_cons,
    orderAll_number_word_eq_lt_iff (isNumber_of_mem_tail hnumbers) hn]
  omega

theorem covers_major_unbounded_iff_of_isNumeric :
    UpdateKind.major.covers .unbounded v.text w = true ↔ v.major < m := by
  rw [covers_major_unbounded_iff, ne_eq,
    orderAll_number_word_eq_lt_iff (List.all_eq_true.mp hw) hm]
  omega

theorem covers_major_nextLine_iff_of_isNumeric :
    UpdateKind.major.covers .nextLine v.text w = true ↔ m = v.major + 1 := by
  have hnumbers := List.all_eq_true.mp hw
  rw [covers_major_nextLine_iff, ne_eq, orderAll_number_word_eq_lt_iff hnumbers hm,
    orderAll_number_eq_lt_iff hnumbers hm]
  omega

end Numeric

end NumberedVersion

end UpdatePlanner
