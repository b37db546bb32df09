import UpdatePlanner.Proofs.Ignore.Coverage
import UpdatePlanner.Proofs.Ignore.OwnRange

/-!
# Versions beyond their upper boundaries

An upper boundary is meant to stand above the version it is made of. It does where the part at its
depth is absent or a number that can be raised. A part that is kept is continued by a large number,
which stands above the version as long as that goes on with something smaller behind the part; a
version that goes on with the same number or a larger one is not below its own boundary.

## Main definitions

* `Segment.ReachesContinuation behind`: segments that are not below the continuation of a kept part
* `Version.Outruns version depth`: a version that goes on like that behind a kept part

## Main results

* `Version.segments_upperBoundary`: the segments of an upper boundary
* `Version.lt_nextBoundary_upper_iff`: exactly the versions that outrun it are not below their upper
  boundary
-/

namespace UpdatePlanner

open Text Segment

namespace Segment

/-- Segments that are not below the number that continues a kept part: a larger number comes first,
or this number and then nothing below zero. -/
def ReachesContinuation (behind : List Segment) : Prop :=
  ∃ n more, behind = .number n :: more ∧ (999999 < n ∨ n = 999999 ∧ ¬ BelowZero more)

theorem orderAll_continuation_eq_lt_iff (behind : List Segment) :
    orderAll behind [.number 999999] = .lt ↔ ¬ ReachesContinuation behind := by
  rcases behind with _ | ⟨n | w, more⟩
  · apply iff_of_true rfl
    rintro ⟨n, more, hnil, -⟩
    cases hnil
  · have hreaches : ReachesContinuation (.number n :: more) ↔
        999999 < n ∨ n = 999999 ∧ ¬ BelowZero more := by
      constructor
      · rintro ⟨n', more', hcons, hn⟩
        cases hcons
        exact hn
      · intro hn
        exact ⟨n, more, rfl, hn⟩
    rw [hreaches, orderAll_cons_cons, orderAll_nil_right, order, Ordering.then_eq_lt,
      Nat.compare_eq_lt, Nat.compare_eq_eq, orderZeros_eq_lt_iff]
    by_cases hzero : BelowZero more
    · simp only [hzero, and_true, not_true_eq_false, and_false, or_false]
      omega
    · simp only [hzero, and_false, or_false, not_false_eq_true, and_true]
      omega
  · apply iff_of_true rfl
    rintro ⟨n, more', hcons, -⟩
    cases hcons

end Segment

namespace Version

/-! ## The segments on both sides of a depth -/

/-- The segments lie in parts without a mark, or begin with a word where the first part, without its
mark, begins with a number. -/
theorem Aligned.cases_parts {segments : List Segment} {p : List Char} {ps : List (List Char)}
    (h : Aligned segments (p :: ps)) :
    (dropMark p = p ∧ (segments = (p :: ps).flatMap scan ∨
        (p :: ps).flatMap scan = [] ∧ ∃ w, segments = [.word w])) ∨
      ∃ w rest n more, segments = .word w :: rest ∧ scan (dropMark p) = .number n :: more := by
  by_cases hmark : dropMark p = p
  · cases h with
    | scanned hne hs => exact .inl ⟨hmark, .inl hs⟩
    | unread w hs hparts => exact .inl ⟨hmark, .inr ⟨hparts, w, hs⟩⟩
    | shifted w rest n more hs _ hp => exact .inr ⟨w, rest, n, more, hs, hmark.symm ▸ hp⟩
  · rcases h.cases_cons with ⟨hnone, -⟩ | hword
    · exact absurd hnone hmark
    · exact .inr hword

/-- What the segments have behind the parts in front of a place: those of the other parts, or the
word that the version is read as if none of its parts has segments. -/
theorem exists_behind {segments : List Segment} {parts : List (List Char)}
    (h : segments = parts.flatMap scan ∨ parts.flatMap scan = [] ∧ ∃ w, segments = [.word w])
    (place : Nat) :
    ∃ behind, segments = (parts.take place).flatMap scan ++ behind ∧
      (behind = (parts.drop place).flatMap scan ∨
        (parts.drop place).flatMap scan = [] ∧ ∃ w, behind = [.word w]) := by
  have hsplit : parts.flatMap scan =
      (parts.take place).flatMap scan ++ (parts.drop place).flatMap scan := by
    rw [← List.flatMap_append, List.take_append_drop]
  rcases h with rfl | ⟨hnil, w, rfl⟩
  · exact ⟨_, hsplit, .inl rfl⟩
  · rw [hsplit, List.append_eq_nil_iff] at hnil
    exact ⟨[.word w], by rw [hnil.1, List.nil_append], .inr ⟨hnil.2, w, rfl⟩⟩

/-! ## Upper boundaries -/

/-- What a version looks like that is not below its upper boundary at a depth. The part there cannot
be raised, and behind it the segments of the version reach the number that continues it in the
boundary. -/
def Outruns (version : String) (depth : Nat) : Prop :=
  ∃ part behind, (partsOf version.toList)[depth]? = some part ∧ raisePart part = none ∧
    (read version).segments = partsSegments ((partsOf version.toList).take (depth + 1)) ++ behind ∧
    ReachesContinuation behind

section Parts

variable {version text : String} {depth : Nat} {p : List Char} {ps : List (List Char)}
  (hparts : partsOf version.toList = p :: ps)
include hparts

/-- A version that begins with a word where its first part is a number outruns no boundary. -/
theorem not_outruns_of_word {w : String} {rest more : List Segment} {n : Nat}
    (hs : (read version).segments = .word w :: rest)
    (hp : scan (dropMark p) = .number n :: more) : ¬ Outruns version depth := by
  rintro ⟨part, behind, -, -, hsegments, -⟩
  rw [hs, hparts, List.take_succ_cons, partsSegments, hp, List.cons_append, List.cons_append]
    at hsegments
  cases hsegments

variable (hmark : dropMark p = p)
include hmark

/-- **The segments of an upper boundary**: those of the parts in front of its depth, and behind them
what it ends with. -/
theorem segments_upperBoundary (h : nextBoundary version depth .upper = some text) :
    (read text).segments = ((p :: ps).take depth).flatMap scan ++
      (boundaryTail (p :: ps)[depth]? depth .upper).flatMap scan := by
  rw [segments_of_nextBoundary h, hparts, boundaryLine, List.append_nil, ← List.flatMap_append]
  apply partsSegments_eq_flatMap
  intro q hq
  -- No mark stands in the first part of the boundary: it is that of the version, or was raised.
  cases depth with
  | succ depth =>
    obtain rfl : p = q := by simpa using hq
    exact hmark
  | zero =>
    cases hr : raisePart p with
    | none =>
      obtain rfl : p = q := by simpa [boundaryTail_upper_of_keep hr] using hq
      exact hmark
    | some next =>
      obtain rfl : next = q := by simpa [boundaryTail_of_raise hr] using hq
      exact dropMark_of_isDigits (scan_of_raisePart hr).2.1

variable (hs : (read version).segments = (p :: ps).flatMap scan ∨
  (p :: ps).flatMap scan = [] ∧ ∃ w, (read version).segments = [.word w])
include hs

/-- Behind a part that is kept, the segments of the version are compared with its continuation. -/
theorem lt_upperBoundary_iff_of_keep {part : List Char} (hpart : (p :: ps)[depth]? = some part)
    (hkeep : raisePart part = none) (h : nextBoundary version depth .upper = some text) :
    orderAll (read version).segments (read text).segments = .lt ↔ ¬ Outruns version depth := by
  obtain ⟨behind, hsegments, -⟩ := exists_behind hs (depth + 1)
  have hline : (read text).segments =
      ((p :: ps).take (depth + 1)).flatMap scan ++ [.number 999999] := by
    rw [segments_upperBoundary hparts hmark h, hpart, boundaryTail_upper_of_keep hkeep,
      List.take_add_one, hpart]
    simp
  have hscan : partsSegments ((p :: ps).take (depth + 1)) =
      ((p :: ps).take (depth + 1)).flatMap scan := by
    apply partsSegments_eq_flatMap
    rintro q ⟨⟩
    exact hmark
  rw [hsegments, hline, orderAll_append_left, orderAll_continuation_eq_lt_iff, not_iff_not]
  constructor
  · intro hreaches
    exact ⟨part, behind, hparts ▸ hpart, hkeep, by rw [hparts, hscan, hsegments], hreaches⟩
  · rintro ⟨part', behind', -, -, hsegments', hreaches⟩
    -- The parts determine what is behind them.
    rw [hparts, hscan, hsegments, List.append_cancel_left_eq] at hsegments'
    exact hsegments' ▸ hreaches

/-- A boundary that raises the part at its depth, or adds one, is above the version. -/
theorem lt_upperBoundary_of_raise
    (hraise : ∀ part, (p :: ps)[depth]? = some part → raisePart part ≠ none)
    (h : nextBoundary version depth .upper = some text) :
    orderAll (read version).segments (read text).segments = .lt := by
  obtain ⟨behind, hsegments, hbehind⟩ := exists_behind hs depth
  rw [hsegments, segments_upperBoundary hparts hmark h, orderAll_append_left]
  cases hpart : (p :: ps)[depth]? with
  | none =>
    have hnil : (p :: ps).drop depth = [] :=
      List.drop_eq_nil_iff.mpr (List.getElem?_eq_none_iff.mp hpart)
    rw [hnil] at hbehind
    have htail : (boundaryTail none depth .upper).flatMap scan = [.number 1] := by
      simp [boundaryTail]
    rw [htail]
    rcases hbehind with rfl | ⟨-, w, rfl⟩ <;> rfl
  | some part =>
    obtain ⟨next, hnext⟩ := Option.ne_none_iff_exists'.mp (hraise part hpart)
    obtain ⟨-, -, n, hn, hn'⟩ := scan_of_raisePart hnext
    have hdrop : ((p :: ps).drop depth).flatMap scan =
        .number n :: ((p :: ps).drop (depth + 1)).flatMap scan := by
      rw [List.drop_eq_getElem?_toList_append, hpart, Option.toList_some, List.flatMap_append,
        List.flatMap_singleton, hn, List.singleton_append]
    rw [hdrop] at hbehind
    rw [boundaryTail_of_raise hnext, List.flatMap_singleton, hn']
    rcases hbehind with rfl | ⟨hnil, -⟩
    · exact orderAll_number_number (Nat.lt_succ_self n) ..
    · cases hnil

end Parts

/-- **Exactly the versions that outrun it are not below their upper boundary.** A version with parts
has an upper boundary at every depth up to the number of its parts, and is below it unless the part
there is kept and the version goes on behind it with a number that reaches the continuation. -/
theorem lt_nextBoundary_upper_iff {version : String} {depth : Nat} (hne : parts version ≠ [])
    (hdepth : depth ≤ (parts version).length) :
    ∃ text, nextBoundary version depth .upper = some text ∧
      (read version < read text ↔ ¬ Outruns version depth) := by
  rw [parts, ne_eq, List.map_eq_nil_iff] at hne
  rw [parts, List.length_map] at hdepth
  obtain ⟨text, h⟩ := exists_nextBoundary_of_le hne hdepth .upper
  refine ⟨text, h, ?_⟩
  have hlt : read version < read text ↔
      orderAll (read version).segments (read text).segments = .lt := by
    rw [← isLT_iff_of_update_eq_none (isDotted_of_nextBoundary h).update_read,
      Ordering.isLT_iff_eq_lt]
    rfl
  rw [hlt]
  obtain ⟨p, ps, hparts⟩ := List.exists_cons_of_ne_nil hne
  have haligned := aligned_read (not_allBlank_of_partsOf_ne_nil hne)
  rw [hparts] at haligned
  rcases haligned.cases_parts with ⟨hmark, hs⟩ | ⟨w, rest, n, more, hs, hp⟩
  · by_cases hkeep : ∃ part, (p :: ps)[depth]? = some part ∧ raisePart part = none
    · obtain ⟨part, hpart, hkeep⟩ := hkeep
      exact lt_upperBoundary_iff_of_keep hparts hmark hs hpart hkeep h
    · apply iff_of_true
      · apply lt_upperBoundary_of_raise hparts hmark hs ?_ h
        intro part hpart hnone
        exact hkeep ⟨part, hpart, hnone⟩
      · rintro ⟨part, behind, hpart, hnone, -⟩
        exact hkeep ⟨part, hparts ▸ hpart, hnone⟩
  · exact iff_of_true (lt_boundary_of_word hparts hs hp h) (not_outruns_of_word hparts hs hp)

/-- A boundary that is the version itself, and one that is below it. -/
theorem nextBoundary_upper_not_above :
    nextBoundary "1-beta.999999" 0 .upper = some "1-beta.999999" ∧
      nextBoundary "1-beta.9999999" 0 .upper = some "1-beta.999999" ∧
      ¬ read "1-beta.999999" < read "1-beta.999999" ∧
      ¬ read "1-beta.9999999" < read "1-beta.999999" := by
  with_unfolding_all decide

theorem lt_nextBoundary_upper_iff_beta :
    parts "1-beta.9999999" ≠ [] ∧ 0 ≤ (parts "1-beta.9999999").length ∧
      Outruns "1-beta.9999999" 0 ∧ ¬ Outruns "1-beta.99999" 0 := by
  have hparts : parts "1-beta.9999999" ≠ [] ∧ parts "1-beta.99999" ≠ [] := by decide
  have hboundary : nextBoundary "1-beta.9999999" 0 .upper = some "1-beta.999999" ∧
      nextBoundary "1-beta.99999" 0 .upper = some "1-beta.999999" := by decide
  obtain ⟨text, h, hlt⟩ := lt_nextBoundary_upper_iff hparts.1 (Nat.zero_le _)
  obtain ⟨text', h', hlt'⟩ := lt_nextBoundary_upper_iff hparts.2 (Nat.zero_le _)
  obtain rfl : text = "1-beta.999999" := Option.some.inj (h.symm.trans hboundary.1)
  obtain rfl : text' = "1-beta.999999" := Option.some.inj (h'.symm.trans hboundary.2)
  refine ⟨hparts.1, Nat.zero_le _, ?_, ?_⟩
  · by_contra hnot
    exact absurd (hlt.mpr hnot) (by with_unfolding_all decide)
  · exact hlt'.mp (by with_unfolding_all decide)

end Version

end UpdatePlanner
