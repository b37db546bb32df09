import Mathlib.Data.List.Forall2
import UpdatePlanner.Proofs.Version.Alignment

/-!
# Runs of a version and of its parts

A version text is sliced twice. Its segments are found in the release as a whole. For its parts,
leading operators are dropped first, what is left is cut at dots, commas and white space, and empty
pieces are left out. All that is said of boundaries rests on the two slicings finding the same runs
of digits and letters.

They do on every version that begins with a number. That the first character is a digit, or a mark
before one, is all that has to be known of the text: then there is no operator to drop, an update
number has something in front of it, and the release has a segment. Behind the first digit may stand
anything, since every character that separates parts separates segments as well.

What the runs of a text are is said by a relation that puts the text together from its pieces and
knows no scanner.

## Main definitions

* `Segment.HasRuns cs segments`: the maximal runs of digits and of letters in a text
* `Version.BeginsWithNumber cs`: a digit stands in front of a text, or a mark before a digit

## Main results

* `Segment.hasRuns_iff`: every text has one list of runs, and the scanner finds it
* `Version.BeginsWithNumber.segments_read`: such a version has the segments of its parts
* `Version.segments_read_eq_flatten_runs`: the runs of the parts are the segments of the version
-/

namespace UpdatePlanner

open Text

namespace Segment

/-! ## Runs of a text -/

/-- A text is made of runs of digits and runs of letters, with gaps between them. A run is maximal:
what follows it does not begin with a character of its class. -/
inductive HasRuns : List Char → List Segment → Prop
  -- What stands in front of a run is the beginning, a gap or a run that ends there, so that no run
  -- can be made longer to the left.
  | nil : HasRuns [] []
  | gap {c : Char} {cs : List Char} {segments : List Segment} (hc : IsGap c)
      (h : HasRuns cs segments) : HasRuns (c :: cs) segments
  | digits {ds cs : List Char} {segments : List Segment} (hds : isDigits ds = true)
      (hend : ∀ c ∈ cs.head?, c.isDigit = false) (h : HasRuns cs segments) :
      HasRuns (ds ++ cs) (number (clamp (digitsValue ds)) :: segments)
  | letters {ls cs : List Char} {segments : List Segment} (hne : ls ≠ [])
      (hls : ∀ c ∈ ls, c.isAlpha = true) (hend : ∀ c ∈ cs.head?, c.isAlpha = false)
      (h : HasRuns cs segments) : HasRuns (ls ++ cs) (word (String.ofList ls) :: segments)

/-- The scanner finds runs. -/
theorem hasRuns_scan (cs : List Char) : HasRuns cs (scan cs) := by
  -- A case for each kind of first character. A run is what `takeWhile` finds, and what is left of
  -- the text begins outside of its class.
  fun_induction scan cs with
  | case1 => exact .nil
  | case2 d ds hd ih =>
    have hdigits : isDigits (d :: ds.takeWhile Char.isDigit) = true := by
      rw [isDigits_iff, List.forall_mem_cons]
      exact ⟨List.cons_ne_nil _ _, hd, List.all_eq_true.mp List.all_takeWhile⟩
    have hruns := HasRuns.digits hdigits (head?_dropWhile ds) ih
    rwa [List.cons_append, List.takeWhile_append_dropWhile] at hruns
  | case3 l ls _ hl ih =>
    have hletters : ∀ c ∈ l :: ls.takeWhile Char.isAlpha, c.isAlpha = true := by
      rw [List.forall_mem_cons]
      exact ⟨hl, List.all_eq_true.mp List.all_takeWhile⟩
    have hruns := HasRuns.letters (List.cons_ne_nil _ _) hletters (head?_dropWhile ls) ih
    rwa [List.cons_append, List.takeWhile_append_dropWhile] at hruns
  | case4 c cs hd ha ih =>
    exact .gap ⟨by simpa using hd, by simpa using ha⟩ ih

/-- **Every text has one list of runs**, and the scanner finds it. -/
theorem hasRuns_iff {cs : List Char} {segments : List Segment} :
    HasRuns cs segments ↔ scan cs = segments := by
  constructor
  · intro h
    -- The relation has a case for each equation of the scanner.
    induction h with
    | nil => exact scan_nil
    | gap hc _ ih => rw [scan_separator hc.1 hc.2, ih]
    | digits hds hend _ ih => rw [scan_digits_append hds hend, ih]
    | letters hne hls hend _ ih => rw [scan_letters_append hne hls hend, ih]
  · rintro rfl
    exact hasRuns_scan cs

/-- Texts have one list of runs each. -/
theorem forall₂_hasRuns_iff {texts : List String} {runs : List (List Segment)} :
    List.Forall₂ (fun text segments => HasRuns text.toList segments) texts runs ↔
      runs = texts.map fun text => scan text.toList := by
  simp only [hasRuns_iff]
  rw [← List.forall₂_map_left_iff (R := Eq), List.forall₂_eq_eq_eq, eq_comm]

end Segment

namespace Version

open Segment

/-! ## Versions that begin with a number -/

/-- A text that begins with a digit, or with a mark before a digit. -/
inductive BeginsWithNumber : List Char → Prop
  | digit {d : Char} (hd : d.isDigit = true) (cs : List Char) : BeginsWithNumber (d :: cs)
  | mark {m d : Char} (hm : m = 'v' ∨ m = 'V') (hd : d.isDigit = true) (cs : List Char) :
      BeginsWithNumber (m :: d :: cs)

namespace BeginsWithNumber

/-- Neither a digit nor a mark is a gap. -/
theorem not_isGap_head {cs : List Char} (h : BeginsWithNumber cs) : ∀ c ∈ cs.head?, ¬ IsGap c := by
  intro c hc
  cases h with
  | digit hd =>
    obtain rfl := Option.some.inj hc
    exact not_isGap_of_isDigit hd
  | mark hm =>
    obtain rfl := Option.some.inj hc
    rcases hm with rfl | rfl <;> exact not_isGap_of_isAlpha rfl

/-- Without its mark the text begins with a digit. -/
theorem exists_dropMark_cons {cs : List Char} (h : BeginsWithNumber cs) :
    ∃ d ds, dropMark cs = d :: ds ∧ d.isDigit = true := by
  cases h with
  | @digit d hd cs => exact ⟨d, cs, dropMark_cons_digit hd cs, hd⟩
  | @mark m d hm hd cs => exact ⟨d, cs, dropMark_mark hm hd cs, hd⟩

variable {version : String} (h : BeginsWithNumber (trim version.toList))
include h

/-- The first digit stays, whatever is cut off behind it. -/
theorem scan_release_ne_nil : scan (release version) ≠ [] := by
  obtain ⟨d, ds, hmark, hd⟩ := h.exists_dropMark_cons
  -- An underscore can only stand behind the digit.
  obtain ⟨rest, hrest⟩ := exists_splitUpdate_cons d ds
  obtain ⟨n, more, hscan⟩ := exists_scan_digit hd rest
  rw [release, hmark, hrest, hscan]
  exact List.cons_ne_nil _ _

/-- **A version that begins with a number has the segments of its parts.** -/
theorem segments_read :
    (read version).segments = (partsOf version.toList).flatMap scan :=
  calc (read version).segments
      = scan (release version) := releaseSegments_of_scan_ne_nil h.scan_release_ne_nil
    _ = scan (plainRelease version) := by rw [plainRelease_eq_release h.not_isGap_head]
    _ = (partsOf version.toList).flatMap scan := (flatMap_scan_partsOf version).symm

end BeginsWithNumber

/-! ## Runs of the parts -/

theorem mem_parts {version part : String} (h : part ∈ parts version) :
    part ≠ "" ∧ ∀ c ∈ part.toList, c ≠ '.' ∧ c ≠ ',' ∧ isBlank c = false := by
  obtain ⟨p, hp, rfl⟩ := List.mem_map.mp h
  obtain ⟨hne, hclean⟩ := mem_partsOf hp
  refine ⟨by simpa using hne, ?_⟩
  intro c hc
  rw [String.toList_ofList] at hc
  simpa [isPartSeparator, and_assoc] using hclean c hc

/-- **Segments and parts agree** on a version that begins with a number, whatever stands behind its
first digit. The parts have one list of runs each, and these together, in order, are the segments of
the version. No part is empty, and none holds a dot, a comma or white space. -/
theorem segments_read_eq_flatten_runs {version : String}
    (h : BeginsWithNumber (trim version.toList)) :
    (∃ runs : List (List Segment),
      (∀ rs, List.Forall₂ (fun part segments => HasRuns part.toList segments) (parts version) rs ↔
          rs = runs) ∧
        (read version).segments = runs.flatten) ∧
      ∀ part ∈ parts version, part ≠ "" ∧
        ∀ c ∈ part.toList, c ≠ '.' ∧ c ≠ ',' ∧ isBlank c = false := by
  refine ⟨⟨_, fun _ => forall₂_hasRuns_iff, ?_⟩, fun _ => mem_parts⟩
  rw [h.segments_read, parts, ← List.flatMap_def, List.flatMap_map]
  simp only [String.toList_ofList]

/-- A version with a mark, two underscores, a letter outside of ASCII and a number too large to be
held. -/
def crowdedVersion : String := " v1.2_b, É18446744073709551616_4 "

theorem segments_read_eq_flatten_runs_crowdedVersion :
    BeginsWithNumber (trim crowdedVersion.toList) ∧
      parts crowdedVersion = ["1", "2_b", "É18446744073709551616"] ∧
      (∃ runs : List (List Segment),
        (∀ rs, List.Forall₂ (fun part segments => HasRuns part.toList segments)
            (parts crowdedVersion) rs ↔ rs = runs) ∧
          (read crowdedVersion).segments = runs.flatten) ∧
      ∀ part ∈ parts crowdedVersion, part ≠ "" ∧
        ∀ c ∈ part.toList, c ≠ '.' ∧ c ≠ ',' ∧ isBlank c = false := by
  have htrim : trim crowdedVersion.toList =
      'v' :: '1' :: ".2_b, É18446744073709551616_4".toList := by decide
  have hnumber : BeginsWithNumber (trim crowdedVersion.toList) := by
    rw [htrim]
    exact .mark (.inl rfl) rfl _
  exact ⟨hnumber, by decide, segments_read_eq_flatten_runs hnumber⟩

/-- Behind an operator the mark is a segment and in no part. -/
example : (read "=v1.0").segments = [.word "v", .number 1, .number 0] ∧
    parts "=v1.0" = ["1", "0"] := by
  with_unfolding_all decide

end Version

end UpdatePlanner
