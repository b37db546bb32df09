import UpdatePlanner.Proofs.Version.Alignment
import UpdatePlanner.Proofs.Version.Order

/-!
# Update numbers

Between equal releases the update number decides. It is written in digits of any number and held in
64 bits. A number of a release that does not fit is clamped, and stays above all that fit; an update
number that does not fit is dropped, and its version falls back to the release alone. So update
numbers are ordered as they are written as long as they fit, and the first one that does not stands
below all others but zero.

## Main definitions

* `IsBareRelease release`: a release behind which an update number can be told apart
* `updateWeight update`: what an update number counts for between equal releases

## Main results

* `IsBareRelease.read_underscore`: the version of a release with an update number behind it
* `IsBareRelease.compare_read_underscore`: update numbers of one release are compared by weight
* `read_underscore_le_iff`: which update numbers are in the order of their values
-/

namespace UpdatePlanner.Version

open Text Segment

/-- A release that begins with a digit and holds neither an underscore nor white space. -/
structure IsBareRelease (release : List Char) : Prop where
  digit : ∃ d ∈ release.head?, d.isDigit = true
  underscore : '_' ∉ release
  plain : ∀ c ∈ release, isBlank c = false

theorem isBareRelease_iff {release : List Char} :
    IsBareRelease release ↔ release.head?.any Char.isDigit = true ∧ '_' ∉ release ∧
      (release.all fun c => !isBlank c) = true := by
  simp only [Option.any_eq_true, List.all_eq_true, Bool.not_eq_true']
  constructor
  · rintro ⟨hdigit, hunderscore, hplain⟩
    exact ⟨hdigit, hunderscore, hplain⟩
  · rintro ⟨hdigit, hunderscore, hplain⟩
    exact ⟨hdigit, hunderscore, hplain⟩

instance : DecidablePred IsBareRelease :=
  fun _ => decidable_of_iff _ isBareRelease_iff.symm

/-- What an update number counts for between equal releases: its value, and nothing where that is
too large to be held. -/
def updateWeight (update : List Char) : Nat :=
  if digitsValue update ≤ maxNumber then digitsValue update else 0

theorem getD_number? {update : List Char} (h : isDigits update = true) :
    (number? update).getD 0 = updateWeight update := by
  unfold number? updateWeight
  by_cases hfits : digitsValue update ≤ maxNumber
  · simp [h, hfits]
  · simp [hfits]

/-- Numbers in order have weights in order, unless only the larger one is dropped. -/
theorem updateWeight_le_iff {x y : List Char} (h : digitsValue x ≤ digitsValue y) :
    updateWeight x ≤ updateWeight y ↔
      digitsValue y ≤ maxNumber ∨ digitsValue x = 0 ∨ maxNumber < digitsValue x := by
  unfold updateWeight
  split
  · split <;> omega
  · omega

/-- Versions of the same segments are compared by their update numbers. -/
theorem compare_of_segments_eq {v w : Version} (h : v.segments = w.segments) :
    compare v w = compare (v.update.getD 0) (w.update.getD 0) := by
  have hsegments : orderAll v.segments w.segments = .eq := by
    rw [h]
    exact Std.ReflCmp.compare_self
  rw [compare_def, hsegments, Ordering.eq_then]

namespace IsBareRelease

variable {release : String} (hrelease : IsBareRelease release.toList)
include hrelease

theorem dropMark_append (behind : List Char) :
    dropMark (release.toList ++ behind) = release.toList ++ behind := by
  obtain ⟨d, hd, hdigit⟩ := hrelease.digit
  obtain ⟨ds, hds⟩ := List.head?_eq_some_iff.mp hd
  rw [hds, List.cons_append]
  exact dropMark_cons_digit hdigit _

theorem ne_nil : release.toList ≠ [] := by
  obtain ⟨d, hd, -⟩ := hrelease.digit
  intro hnil
  rw [hnil] at hd
  cases hd

/-- **A release by itself** has no update number. -/
theorem read_self : read release = ⟨release, releaseSegments release.toList, none⟩ := by
  have hmark := hrelease.dropMark_append []
  rw [List.append_nil] at hmark
  have hsplit : splitUpdate release.toList = (release.toList, none) := by
    simp [splitUpdate, splitLast_eq_none hrelease.underscore]
  simp [read, trim_eq_self_of_not_blank hrelease.plain, hmark, hsplit]

/-- **A release with an update number behind it** keeps its segments. -/
theorem read_underscore {update : String} (hupdate : isDigits update.toList = true) :
    read (release ++ "_" ++ update) =
      ⟨release ++ "_" ++ update, releaseSegments release.toList, number? update.toList⟩ := by
  have htext : (release ++ "_" ++ update).toList = release.toList ++ '_' :: update.toList := by
    simp
  have hplain : ∀ c ∈ (release ++ "_" ++ update).toList, isBlank c = false := by
    rw [htext, List.forall_mem_append, List.forall_mem_cons]
    refine ⟨hrelease.plain, rfl, ?_⟩
    intro c hc
    exact isBlank_eq_false (not_isGap_of_mem_digits hupdate c hc)
  have hsplit := splitUpdate_append_underscore_digits hupdate hrelease.ne_nil hrelease.underscore
  rw [read, trim_eq_self_of_not_blank hplain, String.ofList_toList, htext,
    hrelease.dropMark_append, hsplit]
  rfl

theorem segments_read_underscore {update : String} (hupdate : isDigits update.toList = true) :
    (read (release ++ "_" ++ update)).segments = (read release).segments := by
  rw [hrelease.read_underscore hupdate, hrelease.read_self]

/-- **Two update numbers of one release are compared by their weights.** -/
theorem compare_read_underscore {x y : String} (hx : isDigits x.toList = true)
    (hy : isDigits y.toList = true) :
    compare (read (release ++ "_" ++ x)) (read (release ++ "_" ++ y)) =
      compare (updateWeight x.toList) (updateWeight y.toList) := by
  have hsegments := (hrelease.segments_read_underscore hx).trans
    (hrelease.segments_read_underscore hy).symm
  rw [compare_of_segments_eq hsegments, hrelease.read_underscore hx, hrelease.read_underscore hy,
    getD_number? hx, getD_number? hy]

/-- No update number takes a version below its release. -/
theorem le_read_underscore {x : String} (hx : isDigits x.toList = true) :
    read release ≤ read (release ++ "_" ++ x) := by
  have hcompare : compare (read release) (read (release ++ "_" ++ x)) =
      compare 0 (updateWeight x.toList) := by
    rw [compare_of_segments_eq (hrelease.segments_read_underscore hx).symm, hrelease.read_self,
      hrelease.read_underscore hx, getD_number? hx, Option.getD_none]
  have hzero : (compare 0 (updateWeight x.toList)).isLE = true :=
    Nat.isLE_compare.mpr (Nat.zero_le _)
  exact (congrArg Ordering.isLE hcompare).trans hzero

end IsBareRelease

/-- **Update numbers are ordered as they are written as long as they fit.** Of two of them that are
in order, the versions are in order exactly if the larger one can be held, or neither can, or the
smaller one is zero. Neither version is below the release. -/
theorem read_underscore_le_iff {release x y : String} (hrelease : IsBareRelease release.toList)
    (hx : isDigits x.toList = true) (hy : isDigits y.toList = true)
    (hle : digitsValue x.toList ≤ digitsValue y.toList) :
    (read (release ++ "_" ++ x) ≤ read (release ++ "_" ++ y) ↔
        digitsValue y.toList ≤ maxNumber ∨ digitsValue x.toList = 0 ∨
          maxNumber < digitsValue x.toList) ∧
      read release ≤ read (release ++ "_" ++ x) ∧ read release ≤ read (release ++ "_" ++ y) := by
  refine ⟨?_, hrelease.le_read_underscore hx, hrelease.le_read_underscore hy⟩
  calc read (release ++ "_" ++ x) ≤ read (release ++ "_" ++ y)
      ↔ (compare (updateWeight x.toList) (updateWeight y.toList)).isLE = true := by
        rw [← hrelease.compare_read_underscore hx hy]
        rfl
    _ ↔ updateWeight x.toList ≤ updateWeight y.toList := Nat.isLE_compare
    _ ↔ _ := updateWeight_le_iff hle

/-- The first update number that cannot be held stands below the update number one. -/
theorem read_underscore_not_le :
    IsBareRelease "1.8.0".toList ∧ isDigits "1".toList = true ∧
      isDigits "18446744073709551616".toList = true ∧
      digitsValue "1".toList ≤ digitsValue "18446744073709551616".toList ∧
      ¬ read ("1.8.0" ++ "_" ++ "1") ≤ read ("1.8.0" ++ "_" ++ "18446744073709551616") := by
  have hrelease : IsBareRelease "1.8.0".toList := by decide
  exact ⟨hrelease, by decide, by decide, by decide, by with_unfolding_all decide⟩

/-- The largest update number that can be held still stands above the update number one, written
with a leading zero. -/
theorem read_underscore_le_iff_largest :
    IsBareRelease "1.8.0".toList ∧ isDigits "01".toList = true ∧
      isDigits "18446744073709551615".toList = true ∧
      digitsValue "01".toList ≤ digitsValue "18446744073709551615".toList ∧
      (read ("1.8.0" ++ "_" ++ "01") ≤ read ("1.8.0" ++ "_" ++ "18446744073709551615") ↔
        digitsValue "18446744073709551615".toList ≤ maxNumber ∨ digitsValue "01".toList = 0 ∨
          maxNumber < digitsValue "01".toList) ∧
      read "1.8.0" ≤ read ("1.8.0" ++ "_" ++ "01") ∧
      read "1.8.0" ≤ read ("1.8.0" ++ "_" ++ "18446744073709551615") := by
  have hrelease : IsBareRelease "1.8.0".toList := by decide
  have hx : isDigits "01".toList = true := by decide
  have hy : isDigits "18446744073709551615".toList = true := by decide
  have hle : digitsValue "01".toList ≤ digitsValue "18446744073709551615".toList := by
    decide
  exact ⟨hrelease, hx, hy, hle, read_underscore_le_iff hrelease hx hy hle⟩

end UpdatePlanner.Version
