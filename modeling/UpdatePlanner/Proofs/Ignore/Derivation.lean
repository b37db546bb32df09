import UpdatePlanner.Ignore.Condition
import UpdatePlanner.Proofs.Requirement.Interval

/-!
# Ends of derived ranges

The ends of a range derived from a version are boundaries of it. Their segments repeat those of
the parts in front of their depth; the part at the depth is raised if it can be, and else kept
and continued.

## Main results

* `Range.exists_boundaries_of_ofKind`: the ends of a derived range are boundaries
* `Range.hasDottedEnds_of_ofKind`: they are texts of parts
* `Range.exists_aligned_of_ofKind`: the version that a range is derived from has parts
* `segments_majorLine`: the boundaries of the major line
* `segments_minorLower`: the lower boundary of the minor line
* `segments_patchLower`: the lower boundary behind all parts
* `segments_majorLine_majorLine`: the second boundary of a major line that cannot be raised
-/

namespace UpdatePlanner

open Text Segment

namespace Version

theorem not_allBlank_of_partsOf_ne_nil {version : String} (h : partsOf version.toList ≠ []) :
    ¬ AllBlank version.toList := by
  intro hblank
  have htrim := (trim_eq_nil_iff version.toList).mpr hblank
  exact h (by rw [partsOf, htrim]; rfl)

theorem exists_nextBoundary_of_le {version : String} {depth : Nat}
    (hne : partsOf version.toList ≠ []) (h : depth ≤ (partsOf version.toList).length)
    (side : Side) : ∃ text, nextBoundary version depth side = some text :=
  ⟨_, nextBoundary_eq_some_iff.mpr ⟨hne, h, rfl⟩⟩

/-- A version with parts has boundaries at its first two depths. -/
theorem exists_nextBoundary {version : String} {p : List Char} {ps : List (List Char)}
    (hparts : partsOf version.toList = p :: ps) {depth : Nat} (hdepth : depth ≤ 1) (side : Side) :
    ∃ text, nextBoundary version depth side = some text := by
  refine exists_nextBoundary_of_le (by simp [hparts]) ?_ side
  rw [hparts, List.length_cons]
  omega

/-- The boundaries of a version are texts of parts that can be told apart. -/
theorem dotted_boundary (version : String) (depth : Nat) (side : Side) :
    Dotted (boundaryLine (partsOf version.toList) depth side) := by
  apply dotted_boundaryLine
  intro p hp
  exact (mem_partsOf hp).2

theorem isDotted_of_nextBoundary {version text : String} {depth : Nat} {side : Side}
    (h : nextBoundary version depth side = some text) : IsDotted text := by
  obtain ⟨-, -, rfl⟩ := nextBoundary_eq_some_iff.mp h
  exact ⟨_, dotted_boundary version depth side, rfl⟩

/-- The segments of a boundary are those of its parts. -/
theorem segments_of_nextBoundary {version text : String} {depth : Nat} {side : Side}
    (h : nextBoundary version depth side = some text) :
    (read text).segments = partsSegments (boundaryLine (partsOf version.toList) depth side) := by
  obtain ⟨-, -, rfl⟩ := nextBoundary_eq_some_iff.mp h
  exact (dotted_boundary version depth side).segments_read

/-- The segments behind a part that was raised at the end of a boundary. -/
def raisedEnd : Side → List Segment
  | .lower => [.word "a"]
  | .upper => []

/-- The segments behind a first part that was kept at the end of a boundary. -/
def keptEnd : Side → List Segment
  | .lower => [.word "a"]
  | .upper => [.number 999999]

section Ends

variable {version text : String} {p : List Char} {ps : List (List Char)}
  (hparts : partsOf version.toList = p :: ps)
include hparts

/-- The boundaries of the major line: the first part is raised or kept. -/
theorem segments_majorLine {side : Side} (h : nextBoundary version 0 side = some text) :
    (∃ n, raisePart p ≠ none ∧ scan p = [number n] ∧
        (read text).segments = number (n + 1) :: raisedEnd side) ∨
      (raisePart p = none ∧ (read text).segments = scan (dropMark p) ++ keptEnd side) := by
  rw [segments_of_nextBoundary h, hparts]
  unfold boundaryLine
  cases hr : raisePart p with
  | none =>
    refine .inr ⟨rfl, ?_⟩
    cases side with
    | lower => simp [boundaryTail_lower_zero_of_keep hr, partsSegments, keptEnd]
    | upper => simp [boundaryTail_upper_of_keep hr, partsSegments, keptEnd]
  | some next =>
    obtain ⟨-, hdigits, n, hp, hnext⟩ := scan_of_raisePart hr
    refine .inl ⟨n, by simp, hp, ?_⟩
    cases side <;>
      simp [boundaryTail_of_raise hr, partsSegments, dropMark_of_isDigits hdigits, hnext, raisedEnd]

/-- The lower boundary of the minor line: the second part is absent, raised or kept. -/
theorem segments_minorLower (h : nextBoundary version 1 .lower = some text) :
    (ps = [] ∧ (read text).segments = scan (dropMark p) ++ [number 1, word "a"]) ∨
      (∃ q qs m, ps = q :: qs ∧ raisePart q ≠ none ∧ scan q = [number m] ∧
        (read text).segments = scan (dropMark p) ++ [number (m + 1), word "a"]) ∨
      (∃ q qs, ps = q :: qs ∧ raisePart q = none ∧
        (read text).segments = scan (dropMark p) ++ scan q ++ [number 1, word "a"]) := by
  rw [segments_of_nextBoundary h, hparts, boundaryLine]
  cases ps with
  | nil => exact .inl ⟨rfl, by simp [boundaryTail, partsSegments]⟩
  | cons q qs =>
    cases hr : raisePart q with
    | none =>
      refine .inr (.inr ⟨q, qs, rfl, hr, ?_⟩)
      simp [boundaryTail_lower_succ_of_keep hr, partsSegments]
    | some next =>
      obtain ⟨-, -, m, hq, hnext⟩ := scan_of_raisePart hr
      refine .inr (.inl ⟨q, qs, m, rfl, by simp [hr], hq, ?_⟩)
      simp [boundaryTail_of_raise hr, partsSegments, hnext]

/-- The lower boundary behind all parts. -/
theorem segments_patchLower (h : nextBoundary version (ps.length + 1) .lower = some text) :
    (read text).segments =
      scan (dropMark p) ++ ps.flatMap scan ++ [number 1, word "a"] := by
  rw [segments_of_nextBoundary h, hparts, boundaryLine]
  simp [boundaryTail, partsSegments]

/-- Where the first part, without its mark, begins with a number, all boundaries do. -/
theorem exists_number_of_nextBoundary {n : Nat} {more : List Segment} {depth : Nat} {side : Side}
    (hp : scan (dropMark p) = .number n :: more) (h : nextBoundary version depth side = some text) :
    ∃ m behind, (read text).segments = .number m :: behind := by
  cases depth with
  | zero =>
    rcases segments_majorLine hparts h with ⟨m, -, -, hm⟩ | ⟨-, hm⟩
    · exact ⟨m + 1, _, hm⟩
    · exact ⟨n, _, by rw [hm, hp, List.cons_append]⟩
  | succ depth =>
    -- At later depths the first part is repeated.
    obtain ⟨qs, hline⟩ : ∃ qs, boundaryLine (p :: ps) (depth + 1) side = p :: qs := ⟨_, rfl⟩
    rw [segments_of_nextBoundary h, hparts, hline, partsSegments, hp, List.cons_append]
    exact ⟨n, _, rfl⟩

/-- The boundary of a major line that cannot be raised begins as the version does. -/
theorem mem_head?_majorLower (hr : raisePart p = none)
    (h : nextBoundary version 0 .lower = some text) :
    ∀ c ∈ p.head?, c ∈ text.toList.head? := by
  obtain ⟨-, -, rfl⟩ := nextBoundary_eq_some_iff.mp h
  intro c hc
  rw [String.toList_ofList, hparts, boundaryLine, List.getElem?_cons_zero,
    boundaryTail_lower_zero_of_keep hr]
  simp only [List.take_zero, List.nil_append, List.cons_append]
  rw [withDots_cons_cons, List.head?_append, Option.mem_def.mp hc]
  rfl

/-- The boundary of a major line that cannot be raised is its own next boundary. -/
theorem segments_majorLine_majorLine {next : String} (hr : raisePart p = none)
    (hmark : dropMark p = p) (hop : ∀ c ∈ p.head?, isOperatorChar c = false)
    (hnext : nextBoundary version 0 .upper = some next)
    (h : nextBoundary next 0 .upper = some text) :
    (read text).segments = scan p ++ [number 999999] := by
  have hline : ∀ qs, boundaryLine (p :: qs) 0 .upper = [p, highContinuation] := by
    intro qs
    simp [boundaryLine, boundaryTail_upper_of_keep hr]
  have hdotted : Dotted [p, highContinuation] := by
    rw [← hline ps, ← hparts]
    exact dotted_boundary version 0 .upper
  have hne : p ≠ [] := (mem_partsOf (hparts ▸ List.mem_cons_self)).1
  -- The first boundary has the parts that it was made of, so its first part is kept again.
  have hnextParts : partsOf next.toList = [p, highContinuation] := by
    obtain ⟨-, -, rfl⟩ := nextBoundary_eq_some_iff.mp hnext
    rw [hparts, hline, String.toList_ofList, hdotted.partsOf (by simp [hne, highContinuation]) hop,
      hmark]
  rw [segments_of_nextBoundary h, hnextParts, hline]
  simp [partsSegments, hmark]

end Ends

end Version

namespace Range

open Version

variable {version : String} {r : Range}

/-- A range of two boundaries has these as its ends. -/
theorem ends_eq_some_iff {lower? upper? : Option String} :
    (do let lower ← lower?; let upper ← upper?; return (⟨lower, some upper⟩ : Range)) = some r ↔
      lower? = some r.lower ∧ ∃ upper, upper? = some upper ∧ r.upper = some upper := by
  obtain ⟨lower, upper⟩ := r
  simp only [Option.bind_eq_bind, Option.bind_eq_some_iff, Option.pure_def, Option.some.injEq,
    mk.injEq]
  constructor
  · rintro ⟨l, hl, u, hu, rfl, rfl⟩
    exact ⟨hl, u, hu, rfl⟩
  · rintro ⟨hl, u, hu, rfl⟩
    exact ⟨lower, hl, u, hu, rfl, rfl⟩

theorem patch_eq_some_iff :
    patch version = some r ↔
      nextBoundary version (max (partsOf version.toList).length 2) .lower = some r.lower ∧
        ∃ upper, nextBoundary version 1 .upper = some upper ∧ r.upper = some upper := by
  have hlength : (parts version).length = (partsOf version.toList).length := List.length_map ..
  rw [← hlength]
  exact ends_eq_some_iff

theorem minor_eq_some_iff :
    minor version = some r ↔
      nextBoundary version 1 .lower = some r.lower ∧
        ∃ upper, nextBoundary version 0 .upper = some upper ∧ r.upper = some upper :=
  ends_eq_some_iff

theorem major_unbounded_eq_some_iff :
    major version .unbounded = some r ↔
      nextBoundary version 0 .lower = some r.lower ∧ r.upper = none := by
  obtain ⟨lower, upper⟩ := r
  simp only [major, Option.bind_eq_bind, Option.bind_eq_some_iff, Option.pure_def,
    Option.some.injEq, mk.injEq]
  constructor
  · rintro ⟨l, hl, rfl, rfl⟩
    exact ⟨hl, rfl⟩
  · rintro ⟨hl, rfl⟩
    exact ⟨lower, hl, rfl, rfl⟩

/-- The upper end is the second boundary after the version. -/
theorem major_nextLine_eq_some_iff :
    major version .nextLine = some r ↔
      nextBoundary version 0 .lower = some r.lower ∧
        ∃ next upper, nextBoundary version 0 .upper = some next ∧
          nextBoundary next 0 .upper = some upper ∧ r.upper = some upper := by
  have hends : major version .nextLine = some r ↔
      nextBoundary version 0 .lower = some r.lower ∧
        ∃ upper, (nextBoundary version 0 .upper).bind (nextBoundary · 0 .upper) = some upper ∧
          r.upper = some upper := by
    rw [← ends_eq_some_iff]
    simp [major, Option.bind_assoc]
  rw [hends]
  constructor
  · rintro ⟨hl, upper, hbind, hr⟩
    obtain ⟨next, hnext, hu⟩ := Option.bind_eq_some_iff.mp hbind
    exact ⟨hl, next, upper, hnext, hu, hr⟩
  · rintro ⟨hl, next, upper, hnext, hu, hr⟩
    exact ⟨hl, upper, Option.bind_eq_some_iff.mpr ⟨next, hnext, hu⟩, hr⟩

theorem exists_major_unbounded {p : List Char} {ps : List (List Char)}
    (hparts : partsOf version.toList = p :: ps) : ∃ r, major version .unbounded = some r := by
  obtain ⟨lower, hlower⟩ := exists_nextBoundary hparts (Nat.zero_le 1) .lower
  exact ⟨⟨lower, none⟩, major_unbounded_eq_some_iff.mpr ⟨hlower, rfl⟩⟩

theorem exists_minor {p : List Char} {ps : List (List Char)}
    (hparts : partsOf version.toList = p :: ps) : ∃ r, minor version = some r := by
  obtain ⟨lower, hlower⟩ := exists_nextBoundary hparts (Nat.le_refl 1) .lower
  obtain ⟨upper, hupper⟩ := exists_nextBoundary hparts (Nat.zero_le 1) .upper
  exact ⟨⟨lower, some upper⟩, minor_eq_some_iff.mpr ⟨hlower, upper, hupper, rfl⟩⟩

/-- The ends of a derived range are boundaries, and the lower one is a boundary of the version. -/
theorem exists_boundaries_of_ofKind {kind : UpdateKind} {reach : Reach}
    (h : ofKind kind version reach = some r) :
    (∃ depth, nextBoundary version depth .lower = some r.lower) ∧
      ∀ upper ∈ r.upper, ∃ text depth, nextBoundary text depth .upper = some upper := by
  cases kind with
  | patch =>
    obtain ⟨hlower, upper, hb, hr⟩ := patch_eq_some_iff.mp h
    refine ⟨⟨_, hlower⟩, ?_⟩
    intro u hu
    exact ⟨version, 1, hb.trans (hr.symm.trans hu)⟩
  | minor =>
    obtain ⟨hlower, upper, hb, hr⟩ := minor_eq_some_iff.mp h
    refine ⟨⟨_, hlower⟩, ?_⟩
    intro u hu
    exact ⟨version, 0, hb.trans (hr.symm.trans hu)⟩
  | major =>
    cases reach with
    | unbounded =>
      obtain ⟨hlower, hr⟩ := major_unbounded_eq_some_iff.mp h
      refine ⟨⟨_, hlower⟩, ?_⟩
      intro u hu
      cases hr.symm.trans hu
    | nextLine =>
      obtain ⟨hlower, next, upper, -, hb, hr⟩ := major_nextLine_eq_some_iff.mp h
      refine ⟨⟨_, hlower⟩, ?_⟩
      intro u hu
      exact ⟨next, 0, hb.trans (hr.symm.trans hu)⟩

theorem hasDottedEnds_of_ofKind {kind : UpdateKind} {reach : Reach}
    (h : ofKind kind version reach = some r) : r.HasDottedEnds := by
  obtain ⟨⟨_, hlower⟩, hupper⟩ := exists_boundaries_of_ofKind h
  refine ⟨isDotted_of_nextBoundary hlower, ?_⟩
  intro upper hu
  obtain ⟨_, _, hb⟩ := hupper upper hu
  exact isDotted_of_nextBoundary hb

/-- A range is derived only from a version with parts, in which its segments lie. -/
theorem exists_aligned_of_ofKind {kind : UpdateKind} {reach : Reach}
    (h : ofKind kind version reach = some r) :
    ∃ p ps, partsOf version.toList = p :: ps ∧
      Aligned (Version.read version).segments (p :: ps) := by
  obtain ⟨⟨depth, hlower⟩, -⟩ := exists_boundaries_of_ofKind h
  have hne := (nextBoundary_eq_some_iff.mp hlower).1
  obtain ⟨p, ps, hparts⟩ := List.exists_cons_of_ne_nil hne
  exact ⟨p, ps, hparts, hparts ▸ aligned_read (not_allBlank_of_partsOf_ne_nil hne)⟩

end Range

/-- The ranges of several kinds are those of each of them. -/
theorem IgnoreCondition.mem_kindRanges_iff {kinds : List UpdateKind} {version range : String}
    {reach : Reach} :
    range ∈ kindRanges kinds version reach ↔
      ∃ kind ∈ kinds, ∃ r, Range.ofKind kind version reach = some r ∧ r.render = range := by
  simp only [kindRanges, List.mem_eraseDups, List.mem_filterMap, Option.map_eq_some_iff]

end UpdatePlanner
