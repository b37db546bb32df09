import UpdatePlanner.Proofs.Requirement.Pessimistic
import UpdatePlanner.Proofs.Version.Boundary

/-!
# Rendered segments

A list of segments is written with dots between them, and a version text is read through four
filters: it is trimmed, a mark in front of it is dropped, an update number is cut off behind it, and
the rest falls into runs. None of these touches a rendered list. There is no white space and no
underscore in it, a word in front is followed by a dot and not by a digit, and the dots keep
neighbouring runs of one kind apart.

## Main definitions

* `Version.IsHeld v`: the numbers of a version can be held

## Main results

* `Segment.scan_render`: a segment is scanned from its own text
* `Version.read_text_ofSegments`: a version of given segments is read back from its text
* `Version.segments_read_text_ofSegments`: what is rendered is read back, be it given, read
  or bumped
-/

namespace UpdatePlanner

open Text

namespace Segment

/-! ## One segment -/

theorem toList_render_number (n : Nat) : (number n).render.toList = digits n :=
  Nat.toList_repr

variable {s : Segment} (h : s.IsRun)
include h

/-- **A segment is scanned from its own text.** -/
theorem scan_render : scan s.render.toList = [s] := by
  cases s with
  | number n =>
    rw [toList_render_number, scan_digits (isDigits_digits n), digitsValue_digits, clamp_eq_self h]
  | word w =>
    have hscan := scan_letters h.1 h.2
    rwa [String.ofList_toList] at hscan

theorem alphanumeric_render : Version.Alphanumeric s.render.toList := by
  cases s with
  | number n =>
    rw [toList_render_number]
    exact Version.alphanumeric_of_isDigits (isDigits_digits n)
  | word w =>
    refine ⟨h.1, ?_⟩
    intro c hc
    rw [Char.isAlphanum, h.2 c hc, Bool.true_or]

/-- A segment by itself has no mark, as that would be a letter before a digit. -/
theorem dropMark_render : Version.dropMark s.render.toList = s.render.toList := by
  cases s with
  | number n =>
    rw [toList_render_number]
    exact Version.dropMark_of_isDigits (isDigits_digits n)
  | word w =>
    rcases Version.dropMark_cases w.toList with hw | ⟨m, d, ds, hw, -, hd, -⟩
    · exact hw
    · have halpha : d.isAlpha = true := h.2 d (by simp [hw])
      exact absurd (halpha.symm.trans (isAlpha_eq_false_of_isDigit hd)) Bool.noConfusion

end Segment

attribute [ext] Version

namespace Version

open Segment

/-! ## Lists of segments -/

/-- The texts of segments. -/
def renderedParts (segments : List Segment) : List (List Char) :=
  segments.map fun s => s.render.toList

theorem text_ofSegments {segments : List Segment} (hne : segments ≠ []) :
    (ofSegments segments).text = String.ofList (withDots (renderedParts segments)) := by
  have hdot : ".".toList = ['.'] := rfl
  rw [← String.toList_inj, String.toList_ofList, ofSegments, if_neg (by simpa using hne)]
  simp only [String.toList_intercalate, List.map_map, hdot]
  rfl

section Runs

variable {segments : List Segment} (h : ∀ s ∈ segments, s.IsRun)
include h

theorem flatMap_scan_renderedParts : (renderedParts segments).flatMap scan = segments := by
  induction segments with
  | nil => rfl
  | cons s ss ih =>
    rw [List.forall_mem_cons] at h
    rw [renderedParts, List.map_cons, List.flatMap_cons, scan_render h.1, ← renderedParts, ih h.2,
      List.singleton_append]

theorem partsSegments_renderedParts : partsSegments (renderedParts segments) = segments := by
  cases segments with
  | nil => rfl
  | cons s ss =>
    rw [List.forall_mem_cons] at h
    rw [renderedParts, List.map_cons, partsSegments, dropMark_render h.1, scan_render h.1,
      ← renderedParts, flatMap_scan_renderedParts h.2, List.singleton_append]

theorem dotted_renderedParts (hne : segments ≠ []) : Dotted (renderedParts segments) := by
  have halnum : ∀ p ∈ renderedParts segments, Alphanumeric p := by
    intro p hp
    obtain ⟨s, hs, rfl⟩ := List.mem_map.mp hp
    exact alphanumeric_render (h s hs)
  refine ⟨fun p hp => (halnum p hp).isPartSeparator, ?_⟩
  have hlast := List.getLast?_eq_some_getLast (l := renderedParts segments)
    (by simpa [renderedParts] using hne)
  exact ⟨_, hlast, halnum _ (List.mem_of_getLast? hlast)⟩

/-- **A version of given segments is read back from its text.** -/
theorem read_text_ofSegments : read (ofSegments segments).text = ofSegments segments := by
  by_cases hne : segments = []
  · -- Without segments the version is zero.
    subst hne
    -- The scan recurses on the length of its text, which `decide` alone does not unfold.
    with_unfolding_all decide
  have hdotted := dotted_renderedParts h hne
  have hsegments : ofSegments segments = ⟨(ofSegments segments).text, segments, none⟩ := by
    rw [ofSegments, if_neg (by simpa using hne)]
  rw [hsegments]
  apply Version.ext
  · rw [text_ofSegments hne, hdotted.text_read]
  · rw [text_ofSegments hne, hdotted.segments_read, partsSegments_renderedParts h]
  · rw [text_ofSegments hne, hdotted.update_read]

end Runs

/-! ## Versions that were read or bumped -/

/-- The numbers of a version can be held, as those of every version that was read. -/
def IsHeld (v : Version) : Prop := ∀ n, .number n ∈ v.segments → n ≤ maxNumber

/-- The segments of a release with a letter or a digit in it are runs. -/
theorem isRun_of_mem_segments {raw : String} (h : ∃ c ∈ release raw, c.isAlphanum = true) :
    ∀ s ∈ (read raw).segments, s.IsRun := by
  rw [segments_read, releaseSegments_of_scan_ne_nil (scan_ne_nil h)]
  exact fun s hs => isRun_of_mem_scan hs

theorem isHeld_read (raw : String) : (read raw).IsHeld := by
  intro n hn
  rw [segments_read] at hn
  by_cases h : scan (release raw) = []
  · -- Then there is one segment, and it is a word unless it is zero.
    by_cases hrelease : release raw = []
    · rw [hrelease] at hn
      have hzero : n = 0 := by simpa [releaseSegments] using hn
      exact hzero ▸ Nat.zero_le _
    · rw [releaseSegments_of_scan_eq_nil h hrelease] at hn
      simp at hn
  · rw [releaseSegments_of_scan_ne_nil h] at hn
    exact isRun_of_mem_scan hn

/-- What raises the last number keeps to what can be held. -/
theorem isRun_raiseLast {segments : List Segment} (h : ∀ s ∈ segments, s.IsRun) :
    ∀ s ∈ raiseLast segments, s.IsRun := by
  fun_induction raiseLast segments with
  | case1 =>
    rw [List.forall_mem_singleton]
    exact Nat.le_of_ble_eq_true rfl
  | case2 n =>
    rw [List.forall_mem_singleton]
    exact clamp_le _
  | case3 w => exact h
  | case4 s t ss ih =>
    rw [List.forall_mem_cons] at h ⊢
    exact ⟨h.1, ih h.2⟩

theorem isRun_of_mem_leadingNumbers {v : Version} (h : v.IsHeld) :
    ∀ s ∈ v.leadingNumbers, s.IsRun := by
  intro s hs
  obtain ⟨n, rfl⟩ := exists_eq_number (isNumber_of_mem_leadingNumbers v s hs)
  exact h n (List.takeWhile_subset _ hs)

/-- **The end of a version line is read back from its text.** -/
theorem read_text_bump {v : Version} (h : v.IsHeld) : read v.bump.text = v.bump := by
  rw [bump_eq]
  apply read_text_ofSegments
  apply isRun_raiseLast
  intro s hs
  exact isRun_of_mem_leadingNumbers h s (List.mem_of_mem_take hs)

/-- **Segments are read back from the text that they are rendered as**, without an update number:
any list of runs, the empty one being zero, and so the segments of every version whose release has a
letter or a digit in it. The end of the line of a version is read back as it is. -/
theorem segments_read_text_ofSegments :
    (∀ segments : List Segment, (∀ s ∈ segments, s.IsRun) →
      (read (ofSegments segments).text).segments =
          (if segments = [] then [.number 0] else segments) ∧
        (read (ofSegments segments).text).update = none) ∧
    (∀ raw : String, (∃ c ∈ release raw, c.isAlphanum = true) →
      (read (ofSegments (read raw).segments).text).segments = (read raw).segments) ∧
    ∀ v : Version, v.IsHeld → read v.bump.text = v.bump := by
  have hgiven : ∀ segments : List Segment, (ofSegments segments).segments =
      if segments = [] then [.number 0] else segments := by
    intro segments
    cases segments <;> rfl
  refine ⟨?_, ?_, fun v => read_text_bump⟩
  · intro segments h
    rw [read_text_ofSegments h]
    exact ⟨hgiven segments, rfl⟩
  · intro raw hraw
    rw [read_text_ofSegments (isRun_of_mem_segments hraw), hgiven,
      if_neg (segments_read_ne_nil raw)]

/-- A word that could be taken for a mark, and the largest number that can be held. -/
theorem segments_read_text_ofSegments_mark :
    (∀ s ∈ [Segment.word "v", .number maxNumber], s.IsRun) ∧
      (read (ofSegments [.word "v", .number maxNumber]).text).segments =
        [.word "v", .number maxNumber] ∧
      (∃ c ∈ release "v1.0-RC_7", c.isAlphanum = true) ∧
      (read (ofSegments (read "v1.0-RC_7").segments).text).segments =
        (read "v1.0-RC_7").segments ∧
      (read "v1.0-RC_7").IsHeld ∧
      read (read "v1.0-RC_7").bump.text = (read "v1.0-RC_7").bump := by
  obtain ⟨hgiven, hread, hbump⟩ := segments_read_text_ofSegments
  have hruns : ∀ s ∈ [Segment.word "v", .number maxNumber], s.IsRun := by decide
  have hrelease : ∃ c ∈ release "v1.0-RC_7", c.isAlphanum = true :=
    ⟨'1', by decide, by decide⟩
  exact ⟨hruns, (hgiven _ hruns).1, hrelease, hread _ hrelease, isHeld_read _,
    hbump _ (isHeld_read _)⟩

end Version

end UpdatePlanner
