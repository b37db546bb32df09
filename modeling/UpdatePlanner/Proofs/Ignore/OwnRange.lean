import UpdatePlanner.Ignore.Condition
import UpdatePlanner.Proofs.Ignore.Derivation

/-!
# Versions in their own ranges

A range derived from a version is meant to lie above it. It does for plain numbers. But a part
that cannot be raised is kept in the bound, and continued by something low; where the version
itself goes on with something higher behind that part, it lies in its own range.

## Main definitions

* `Version.EntersOwnRange kind reach version`: what a version looks like that lies in its own
  range of a kind

## Main results

* `Range.spans_self_minor_iff`, `Range.spans_self_major_iff`: which versions lie in their own minor
  and major ranges
* `Range.spans_self_iff`: exactly those that enter them lie in their own ranges
* `IgnoreCondition.admits_self_iff`: so a condition on kinds of updates ignores the version in use
  exactly if that enters its own range of one of the kinds
-/

namespace UpdatePlanner

open Text Segment

/-! ## Where the order is decided -/

namespace Segment

/-- What a version has behind its first part lies below a continuation by `1.a`. -/
theorem orderAll_behind_lt {behind rest : List Segment}
    (h : rest = behind ∨ behind = [] ∧ ∃ w, rest = [word w]) :
    orderAll rest (behind ++ [number 1, word "a"]) = .lt := by
  rcases h with rfl | ⟨rfl, w, rfl⟩
  · have hdrop := orderAll_append_left rest [] [.number 1, .word "a"]
    rw [List.append_nil] at hdrop
    rw [hdrop]
    rfl
  · rfl

end Segment

namespace Version

/-- What a version looks like that lies in its own range of a kind. Behind a part that cannot be
raised its segments go on with something that is not below the continuation of the lower end,
and, where the upper end keeps that part too, is below the continuation of the upper one. -/
def EntersOwnRange (kind : UpdateKind) (reach : Reach) (version : String) : Prop :=
  match kind with
  | .patch => False
  | .minor => ∃ p q ps rest, partsOf version.toList = p :: q :: ps ∧ raisePart q = none ∧
      (Version.read version).segments = scan (dropMark p) ++ scan q ++ rest ∧
      orderAll rest [.number 1, .word "a"] ≠ .lt ∧
      (raisePart p = none → orderAll (scan q ++ rest) [.number 999999] = .lt)
  | .major => ∃ p ps rest, partsOf version.toList = p :: ps ∧ raisePart p = none ∧
      (Version.read version).segments = scan (dropMark p) ++ rest ∧
      orderAll rest [.word "a"] ≠ .lt ∧
      (reach = .nextLine → orderAll rest [.number 999999] = .lt)

section Parts

variable {version : String} {p : List Char} {ps : List (List Char)} {reach : Reach}
  (hparts : partsOf version.toList = p :: ps)
include hparts

theorem entersOwnRange_minor_iff :
    EntersOwnRange .minor reach version ↔
      ∃ q qs rest, ps = q :: qs ∧ raisePart q = none ∧
        (Version.read version).segments = scan (dropMark p) ++ scan q ++ rest ∧
        orderAll rest [.number 1, .word "a"] ≠ .lt ∧
        (raisePart p = none → orderAll (scan q ++ rest) [.number 999999] = .lt) := by
  constructor
  · rintro ⟨p', q, qs, rest, hp', henters⟩
    obtain ⟨rfl, rfl⟩ := List.cons.inj (hparts.symm.trans hp')
    exact ⟨q, qs, rest, rfl, henters⟩
  · rintro ⟨q, qs, rest, rfl, henters⟩
    exact ⟨p, q, qs, rest, hparts, henters⟩

theorem entersOwnRange_major_iff :
    EntersOwnRange .major reach version ↔
      raisePart p = none ∧ ∃ rest, (Version.read version).segments = scan (dropMark p) ++ rest ∧
        orderAll rest [.word "a"] ≠ .lt ∧
        (reach = .nextLine → orderAll rest [.number 999999] = .lt) := by
  constructor
  · rintro ⟨p', ps', rest, hp', hkeep, henters⟩
    obtain ⟨rfl, rfl⟩ := List.cons.inj (hparts.symm.trans hp')
    exact ⟨hkeep, rest, henters⟩
  · rintro ⟨hkeep, rest, henters⟩
    exact ⟨p, ps, rest, hparts, hkeep, henters⟩

section Word

variable {w : String} {rest more : List Segment} {n : Nat}
  (hs : (Version.read version).segments = .word w :: rest)
  (hp : scan (dropMark p) = .number n :: more)
include hs hp

/-- What begins with a word where its first part is a number enters no range. -/
theorem not_entersOwnRange_of_word (kind : UpdateKind) : ¬ EntersOwnRange kind reach version := by
  intro henters
  have hbegin : ∃ behind, (Version.read version).segments = scan (dropMark p) ++ behind := by
    cases kind with
    | patch => cases henters
    | minor =>
      obtain ⟨q, qs, rest, -, -, hsegments, -⟩ := (entersOwnRange_minor_iff hparts).mp henters
      exact ⟨scan q ++ rest, by rw [hsegments, List.append_assoc]⟩
    | major =>
      obtain ⟨-, rest, hsegments, -⟩ := (entersOwnRange_major_iff hparts).mp henters
      exact ⟨rest, hsegments⟩
  obtain ⟨behind, hbegin⟩ := hbegin
  rw [hs, hp] at hbegin
  cases hbegin

/-- It lies below all boundaries. -/
theorem lt_boundary_of_word {text : String} {depth : Nat} {side : Side}
    (h : nextBoundary version depth side = some text) :
    orderAll (Version.read version).segments (Version.read text).segments = .lt := by
  obtain ⟨m, behind, hm⟩ := exists_number_of_nextBoundary hparts hp h
  rw [hs, hm]
  exact orderAll_word_number ..

end Word

end Parts

end Version

namespace Range

open Version

theorem not_spans_of_lt {r : Range} {segments : List Segment}
    (h : orderAll segments (Version.read r.lower).segments = .lt) : ¬ r.Spans segments := by
  intro hspans
  exact hspans.1 h

section Own

variable {version : String} {p : List Char} {ps : List (List Char)} {r : Range}
  {rest : List Segment}
  (hparts : partsOf version.toList = p :: ps) (hmark : dropMark p = p)
  (hs : (Version.read version).segments = scan p ++ rest)
include hparts hmark hs

/-- A version lies below the upper boundary of its major line, unless that is a kept part which
the version continues by something higher. -/
theorem lt_majorUpper_iff {upper : String} (hupper : nextBoundary version 0 .upper = some upper) :
    orderAll (Version.read version).segments (Version.read upper).segments = .lt ↔
      (raisePart p = none → orderAll rest [.number 999999] = .lt) := by
  rcases segments_majorLine hparts hupper with ⟨n, hraise, hp, hu⟩ | ⟨hkeep, hu⟩
  · apply iff_of_true
    · rw [hs, hu, hp]
      exact orderAll_number_number (Nat.lt_succ_self n) ..
    · intro hkeep
      exact absurd hkeep hraise
  · rw [hs, hu, hmark, orderAll_append_left]
    exact ⟨fun h _ => h, fun h => h hkeep⟩

/-- Behind a kept second part the minor range is entered by what is higher there. -/
theorem spans_minor_iff_of_keep {q : List Char} {behind : List Segment}
    (hrest : rest = scan q ++ behind) (h : minor version = some r)
    (hlower : (Version.read r.lower).segments =
      scan (dropMark p) ++ scan q ++ [number 1, word "a"]) :
    r.Spans (Version.read version).segments ↔
      orderAll behind [number 1, word "a"] ≠ .lt ∧
        (raisePart p = none → orderAll (scan q ++ behind) [number 999999] = .lt) := by
  obtain ⟨-, upper, hupper, hr⟩ := minor_eq_some_iff.mp h
  have hlt := lt_majorUpper_iff hparts hmark hs hupper
  rw [hrest] at hlt
  rw [Spans, hr, ← hlt, hlower, hmark, hs, hrest, List.append_assoc, orderAll_append_left,
    orderAll_append_left]
  simp

/-- Behind a kept first part the major range is entered by what is higher there. -/
theorem spans_major_iff_of_keep {reach : Reach} (hkeep : raisePart p = none)
    (h : major version reach = some r)
    (hop : ∀ c ∈ r.lower.toList.head?, isOperatorChar c = false)
    (hlower : nextBoundary version 0 .lower = some r.lower)
    (hl : (Version.read r.lower).segments = scan (dropMark p) ++ keptEnd .lower) :
    r.Spans (Version.read version).segments ↔
      orderAll rest [.word "a"] ≠ .lt ∧
        (reach = .nextLine → orderAll rest [.number 999999] = .lt) := by
  rw [Spans, hl, hs, hmark, orderAll_append_left, keptEnd]
  cases reach with
  | unbounded => simp [(major_unbounded_eq_some_iff.mp h).2]
  | nextLine =>
    obtain ⟨-, next, upper, hnext, hupper, hr⟩ := major_nextLine_eq_some_iff.mp h
    have hop' : ∀ c ∈ p.head?, isOperatorChar c = false := by
      intro c hc
      exact hop c (mem_head?_majorLower hparts hkeep hlower c hc)
    have hu := segments_majorLine_majorLine hparts hkeep hmark hop' hnext hupper
    simp [hr, hu]

/-- A version lies in its own major range if it goes on behind a kept first part. -/
theorem spans_self_major_iff {reach : Reach} (h : major version reach = some r)
    (hop : ∀ c ∈ r.lower.toList.head?, isOperatorChar c = false) :
    r.Spans (Version.read version).segments ↔ EntersOwnRange .major reach version := by
  have hlower : nextBoundary version 0 .lower = some r.lower := by
    cases reach with
    | unbounded => exact (major_unbounded_eq_some_iff.mp h).1
    | nextLine => exact (major_nextLine_eq_some_iff.mp h).1
  rw [entersOwnRange_major_iff hparts]
  rcases segments_majorLine hparts hlower with ⟨n, hraise, hp, hl⟩ | ⟨hkeep, hl⟩
  · -- The first part is raised above that of the version.
    apply iff_of_false
    · apply not_spans_of_lt
      rw [hs, hl, hp]
      exact orderAll_number_number (Nat.lt_succ_self n) ..
    · rintro ⟨hkeep, -⟩
      exact hraise hkeep
  · rw [spans_major_iff_of_keep hparts hmark hs hkeep h hop hlower hl]
    constructor
    · intro henters
      exact ⟨hkeep, rest, by rw [hs, hmark], henters⟩
    · rintro ⟨-, rest', hs', henters⟩
      rw [hs, hmark, List.append_cancel_left_eq] at hs'
      exact hs' ▸ henters

variable (hrest : rest = ps.flatMap scan ∨ ps.flatMap scan = [] ∧ ∃ w, rest = [.word w])
include hrest

/-- No version lies in its own patch range, as its parts are all that it has. -/
theorem not_spans_self_patch (h : patch version = some r) :
    ¬ r.Spans (Version.read version).segments := by
  obtain ⟨hlower, -⟩ := patch_eq_some_iff.mp h
  have hdepth : max (partsOf version.toList).length 2 = ps.length + 1 := by
    have hle := (nextBoundary_eq_some_iff.mp hlower).2.1
    rw [hparts, List.length_cons] at hle ⊢
    omega
  rw [hdepth] at hlower
  apply not_spans_of_lt
  rw [segments_patchLower hparts hlower, hs, hmark, List.append_assoc, orderAll_append_left]
  exact orderAll_behind_lt hrest

/-- A version lies in its own minor range if it goes on behind a kept second part. -/
theorem spans_self_minor_iff (h : minor version = some r) (reach : Reach) :
    r.Spans (Version.read version).segments ↔ EntersOwnRange .minor reach version := by
  obtain ⟨hlower, -⟩ := minor_eq_some_iff.mp h
  rw [entersOwnRange_minor_iff hparts]
  rcases segments_minorLower hparts hlower with
    ⟨rfl, hl⟩ | ⟨q, qs, m, rfl, hraise, hq, hl⟩ | ⟨q, qs, rfl, hkeep, hl⟩
  · -- A single part is continued by `1.a`, and the version by less.
    apply iff_of_false
    · apply not_spans_of_lt
      rw [hl, hs, hmark, orderAll_append_left]
      exact orderAll_behind_lt hrest
    · rintro ⟨q, qs, rest', hps, -⟩
      cases hps
  · -- The second part is raised above that of the version.
    apply iff_of_false
    · apply not_spans_of_lt
      rw [hl, hs, hmark, orderAll_append_left]
      rcases hrest with rfl | ⟨hnil, -⟩
      · rw [List.flatMap_cons, hq]
        exact orderAll_number_number (Nat.lt_succ_self m) ..
      · simp [hq] at hnil
    · rintro ⟨q', qs', rest', hps, hkeep, -⟩
      obtain ⟨rfl, rfl⟩ := List.cons.inj hps
      exact hraise hkeep
  · obtain ⟨behind, hbehind⟩ : ∃ behind, rest = scan q ++ behind := by
      rcases hrest with rfl | ⟨hnil, -⟩
      · exact ⟨qs.flatMap scan, List.flatMap_cons⟩
      · rw [List.flatMap_cons, List.append_eq_nil_iff] at hnil
        exact ⟨rest, by rw [hnil.1, List.nil_append]⟩
    -- The parts determine what is behind the second one, so that `behind` is the only witness.
    rw [spans_minor_iff_of_keep hparts hmark hs hbehind h hl]
    constructor
    · intro henters
      exact ⟨q, qs, behind, rfl, hkeep, by rw [hs, hmark, hbehind, List.append_assoc], henters⟩
    · rintro ⟨q', qs', behind', hps, -, hs', henters⟩
      obtain ⟨rfl, rfl⟩ := List.cons.inj hps
      rw [hs, hmark, hbehind, List.append_assoc, List.append_cancel_left_eq,
        List.append_cancel_left_eq] at hs'
      exact hs' ▸ henters

end Own

/-- **Exactly the versions that enter their own range lie in it.** -/
theorem spans_self_iff {kind : UpdateKind} {reach : Reach} {version : String} {r : Range}
    (h : ofKind kind version reach = some r)
    (hop : ∀ c ∈ r.lower.toList.head?, isOperatorChar c = false) :
    r.Spans (Version.read version).segments ↔ EntersOwnRange kind reach version := by
  obtain ⟨p, ps, hparts, haligned⟩ := exists_aligned_of_ofKind h
  rcases haligned.cases_cons with ⟨hmark, rest, hs, hrest⟩ | ⟨w, rest, n, more, hs, hp⟩
  · -- The segments begin with those of the first part.
    cases kind with
    | patch => exact iff_of_false (not_spans_self_patch hparts hmark hs hrest h) id
    | minor => exact spans_self_minor_iff hparts hmark hs hrest h reach
    | major => exact spans_self_major_iff hparts hmark hs h hop
  · -- They begin with a word where the first part is a number.
    obtain ⟨⟨depth, hlower⟩, -⟩ := exists_boundaries_of_ofKind h
    apply iff_of_false
    · exact not_spans_of_lt (lt_boundary_of_word hparts hs hp hlower)
    · exact not_entersOwnRange_of_word hparts hs hp kind

end Range

namespace IgnoreCondition

open Version

/-- **A condition on kinds of updates ignores the version in use exactly if that enters its own
range**: every range that the condition yields is one of a kind, and if it can be read, each kind
that has this range tells whether the version in use satisfies it. -/
theorem admits_self_iff {c : IgnoreCondition} {d : Dependency} {securityOnly : Bool}
    {kinds : List UpdateKind} {version range : String} {q : Requirement}
    (hversions : c.versions = none) (hkinds : c.kinds = some kinds)
    (hversion : d.version = some version) (hrange : range ∈ c.ignored d securityOnly)
    (hq : Requirement.read? range = .ok q) :
    (∃ kind ∈ kinds, (Range.ofKind kind version c.reach).map Range.render = some range) ∧
      ∀ kind, (Range.ofKind kind version c.reach).map Range.render = some range →
        (q.admits (Version.read version) = true ↔ EntersOwnRange kind c.reach version) := by
  have hmem : range ∈ kindRanges kinds version c.reach := by
    simp only [ignored, hversions, hkinds, hversion] at hrange
    split at hrange
    · cases hrange
    · exact hrange
  constructor
  · obtain ⟨kind, hkind, r, hr, rfl⟩ := mem_kindRanges_iff.mp hmem
    exact ⟨kind, hkind, by rw [hr, Option.map_some]⟩
  · intro kind hkind
    obtain ⟨r, hr, rfl⟩ := Option.map_eq_some_iff.mp hkind
    have hends := Range.hasDottedEnds_of_ofKind hr
    rw [hends.admits_iff_spans hq]
    exact Range.spans_self_iff hr (hends.isOperatorChar_lower hq)

/-- A condition on the minor updates of every dependency. -/
def minorCondition : IgnoreCondition :=
  ⟨⟨"*", .gap⟩, none, some [.minor], false, .nextLine⟩

/-- A dependency that uses a version with a second part that is no number. -/
def betaDependency : Dependency :=
  ⟨"rails", some "1.0-beta.2", .bundler, []⟩

/-- The range that is to keep minor updates away holds the version in use. -/
theorem ignored_betaDependency :
    minorCondition.ignored betaDependency false = [">= 1.0-beta.1.a, < 2"] ∧
      (Requirement.read? ">= 1.0-beta.1.a, < 2").map
        (fun q => q.admits (Version.read "1.0-beta.2")) = .ok true := by
  with_unfolding_all decide

theorem admits_self_iff_betaDependency :
    ">= 1.0-beta.1.a, < 2" ∈ minorCondition.ignored betaDependency false ∧
      ∃ q, Requirement.read? ">= 1.0-beta.1.a, < 2" = .ok q ∧
        (∃ kind ∈ [UpdateKind.minor],
          (Range.ofKind kind "1.0-beta.2" .nextLine).map Range.render =
            some ">= 1.0-beta.1.a, < 2") ∧
        ∀ kind, (Range.ofKind kind "1.0-beta.2" .nextLine).map Range.render =
            some ">= 1.0-beta.1.a, < 2" →
          (q.admits (Version.read "1.0-beta.2") = true ↔
            EntersOwnRange kind .nextLine "1.0-beta.2") := by
  have hrange : ">= 1.0-beta.1.a, < 2" ∈ minorCondition.ignored betaDependency false := by
    decide
  have hq : Requirement.read? ">= 1.0-beta.1.a, < 2" =
      .ok ⟨[⟨.atLeast, Version.read "1.0-beta.1.a"⟩, ⟨.less, Version.read "2"⟩]⟩ := rfl
  exact ⟨hrange, _, hq, admits_self_iff rfl rfl rfl hrange hq⟩

end IgnoreCondition

end UpdatePlanner
