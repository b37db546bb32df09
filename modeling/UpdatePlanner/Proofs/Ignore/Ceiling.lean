import UpdatePlanner.Proofs.Group.Reading
import UpdatePlanner.Proofs.Ignore.Derivation
import UpdatePlanner.Proofs.Version.Slots

/-!
# Lines of plain versions

A ceiling keeps the ranges of larger updates away. Among versions of numbers alone that is enough
to stay in a line: what is no lower than the version in use and in none of these ranges has its
first number, or its first two.

## Main results

* `DependencyGroup.ignored_eq_kindRanges`: the ranges that a ceiling rules out
* `Range.slot_zero_of_not_spans_major`: outside of the later major lines the first number is kept
* `Range.slot_one_of_not_spans_minor`: outside of the later minor lines the second one is, too
-/

namespace UpdatePlanner

open Text Segment

/-! ## Numbers alone -/

namespace Segment

section Numbers

variable {as bs : List Segment}

theorem le_of_slot_zero {m n : Nat} (hle : (orderAll as bs).isLE = true)
    (ha : slot as 0 = .number m) (hb : slot bs 0 = .number n) : m ≤ n := by
  have hslot := order_slot_zero_isLE hle
  rw [ha, hb] at hslot
  exact Nat.isLE_compare.mp hslot

/-- Between lists that begin alike the first slot stays. -/
theorem slot_zero_eq_of_between {cs : List Segment} (hle : (orderAll as bs).isLE = true)
    (hlt : orderAll bs cs = .lt) (hslot : slot as 0 = slot cs 0) : slot bs 0 = slot as 0 := by
  have h₁ := order_slot_zero_isLE hle
  have h₂ := order_slot_zero_isLE (Ordering.isLE_of_eq_lt hlt)
  rw [← hslot] at h₂
  exact Std.LawfulEqCmp.eq_of_compare (Std.OrientedCmp.isLE_antisymm h₂ h₁)

/-- Between numbers that begin with `n` at least and the line `n + 1` the first number stays. -/
theorem slot_zero_eq_of_line {n : Nat} (ha : ∀ s ∈ as, s.isNumber = true)
    (hb : ∀ s ∈ bs, s.isNumber = true) (hle : (orderAll as bs).isLE = true)
    (hlt : orderAll bs [.number (n + 1), .word "a"] = .lt)
    (hn : ∀ k, slot as 0 = .number k → n ≤ k) : slot bs 0 = slot as 0 := by
  obtain ⟨k, hk⟩ := exists_slot_number ha 0
  obtain ⟨m, hm⟩ := exists_slot_number hb 0
  have h₁ := le_of_slot_zero hle hk hm
  have h₂ := (orderAll_number_word_eq_lt_iff hb hm (n + 1) "a").mp hlt
  have h₃ := hn k hk
  rw [hk, hm, show m = k by omega]

end Numbers

end Segment

/-! ## The ranges of a ceiling -/

namespace DependencyGroup

/-- Under the experimental rules, the ranges that a ceiling rules out are those of the larger
kinds, with every later major line. -/
theorem ignored_eq_kindRanges {g : DependencyGroup} {c : Ceiling} {d : Dependency}
    {version : String} (hexperimental : g.experimental = true) (hceiling : g.rules.ceiling = some c)
    (hversion : d.version = some version) :
    g.ignored d = IgnoreCondition.kindRanges c.kindsAbove version .unbounded := by
  simp [ignored, hexperimental, hceiling, ceilingCondition, IgnoreCondition.ignored, hversion]

/-- The ranges that the ceiling of the settings rules out. -/
theorem ignored_of_ceiling {name version : String} {settings : GroupSettings} {c : Ceiling}
    {g : DependencyGroup} {d : Dependency} (hread : read? name settings true = .ok g)
    (hceiling : settings.highestAllowed = some c.name) (hversion : d.version = some version) :
    g.ignored d = IgnoreCondition.kindRanges c.kindsAbove version .unbounded := by
  obtain ⟨rules, included, excluded, hrules, -, -, rfl⟩ := read?_eq_ok_iff.mp hread
  simp only [GroupRules.read?, hceiling, Ceiling.ofName?_name, Except.ok.injEq] at hrules
  exact ignored_eq_kindRanges rfl (hrules ▸ rfl) hversion

end DependencyGroup

namespace Range

open Version

/-- What lies below the upper end of a range and not in it lies below its lower end. -/
theorem lt_lower_of_not_spans {r : Range} {segments : List Segment}
    (hupper : ∀ upper ∈ r.upper, orderAll segments (Version.read upper).segments = .lt)
    (hspans : ¬ r.Spans segments) : orderAll segments (Version.read r.lower).segments = .lt := by
  cases hc : orderAll segments (Version.read r.lower).segments with
  | lt => rfl
  | eq => exact absurd ⟨by simp [hc], hupper⟩ hspans
  | gt => exact absurd ⟨by simp [hc], hupper⟩ hspans

section FirstNumber

variable {version : String} {p : List Char} {ps : List (List Char)} {n : Nat}
  (hparts : partsOf version.toList = p :: ps) (hp : scan p = [.number n])
include hparts hp

/-- What begins with the first number of a version lies below the next major line. -/
theorem lt_majorLine_of_raise (hraise : raisePart p ≠ none) {upper : String}
    (hupper : nextBoundary version 0 .upper = some upper) (rest : List Segment) :
    orderAll (.number n :: rest) (Version.read upper).segments = .lt := by
  rcases segments_majorLine hparts hupper with ⟨m, -, hm, hl⟩ | ⟨hkeep, -⟩
  · obtain rfl : n = m := by simpa using hp.symm.trans hm
    rw [hl]
    exact orderAll_number_number (Nat.lt_succ_self n) ..
  · exact absurd hkeep hraise

/-- Behind the first number, what is no lower than the version in use and below the next minor line
keeps the number that stands there. -/
theorem slot_zero_behind_of_lt_minorLower {rest : List Segment} (hmark : dropMark p = p)
    (hbehind : ∀ s ∈ ps.flatMap scan, s.isNumber = true) (hrest : ∀ s ∈ rest, s.isNumber = true)
    (hle : (orderAll (ps.flatMap scan) rest).isLE = true) {lower : String}
    (hlower : nextBoundary version 1 .lower = some lower)
    (hlt : orderAll (.number n :: rest) (Version.read lower).segments = .lt) :
    slot rest 0 = slot (ps.flatMap scan) 0 := by
  rcases segments_minorLower hparts hlower with
    ⟨rfl, hl⟩ | ⟨q, qs, m, rfl, -, hq, hl⟩ | ⟨q, qs, rfl, -, hl⟩
  · -- Nothing is behind the first part, and the line is `1`.
    rw [hl, hmark, hp] at hlt
    apply slot_zero_eq_of_line hbehind hrest hle (by simpa [order] using hlt)
    intro k _
    exact Nat.zero_le k
  · -- The second part is a number, and the line is the next one.
    rw [hl, hmark, hp] at hlt
    apply slot_zero_eq_of_line hbehind hrest hle (by simpa [order] using hlt)
    intro k hk
    rw [List.flatMap_cons, hq, List.singleton_append, slot_cons_zero, number.injEq] at hk
    exact Nat.le_of_eq hk
  · rw [hl, hmark, hp, List.append_assoc] at hlt
    have hlt' : orderAll rest (scan q ++ [.number 1, .word "a"]) = .lt := by
      simpa [order] using hlt
    cases hq : scan q with
    | nil =>
      -- The second part has no segments, as if it were absent.
      rw [hq] at hlt'
      apply slot_zero_eq_of_line hbehind hrest hle hlt'
      intro k _
      exact Nat.zero_le k
    | cons s more =>
      -- The version in use and the bound go on alike.
      apply slot_zero_eq_of_between hle hlt'
      rw [List.flatMap_cons, hq, List.cons_append, List.cons_append, slot_cons_zero, slot_cons_zero]

end FirstNumber

section Line

variable {version : String} {p : List Char} {ps : List (List Char)} {r : Range}
  {segments : List Segment}
  (hparts : partsOf version.toList = p :: ps) (hmark : dropMark p = p)
  (hscan : (Version.read version).segments = scan p ++ ps.flatMap scan)
  (hnum : ∀ s ∈ (Version.read version).segments, s.isNumber = true)
  (hsegments : ∀ s ∈ segments, s.isNumber = true)
  (hle : (orderAll (Version.read version).segments segments).isLE = true)
include hparts hmark hscan hnum hsegments hle

/-- **Outside of the later major lines the first number is kept**, and the first part of the
version in use is that number. -/
theorem slot_zero_of_not_spans_major (hr : major version .unbounded = some r)
    (hspans : ¬ r.Spans segments) :
    slot segments 0 = slot (Version.read version).segments 0 ∧
      ∃ n, raisePart p ≠ none ∧ scan p = [.number n] := by
  obtain ⟨hlower, hupper⟩ := major_unbounded_eq_some_iff.mp hr
  have hlt := lt_lower_of_not_spans (by simp [hupper]) hspans
  rcases segments_majorLine hparts hlower with ⟨n, hraise, hp, hl⟩ | ⟨-, hl⟩
  · refine ⟨?_, n, hraise, hp⟩
    rw [hl] at hlt
    apply slot_zero_eq_of_line hnum hsegments hle hlt
    intro k hk
    rw [hscan, hp, List.singleton_append, slot_cons_zero, number.injEq] at hk
    exact Nat.le_of_eq hk
  · -- The version in use is above a kept first part, and so is what is no lower.
    have hbehind : ∀ s ∈ ps.flatMap scan, s.isNumber = true := by
      intro s hs
      exact hnum s (hscan ▸ List.mem_append_right _ hs)
    have hcontra := Std.TransCmp.lt_of_isLE_of_lt hle hlt
    rw [hl, hscan, hmark, orderAll_append_left, keptEnd,
      orderAll_word_of_numbers hbehind] at hcontra
    cases hcontra

/-- **Outside of the later minor lines of the major line the second number is kept.** -/
theorem slot_one_of_not_spans_minor {n : Nat} (hraise : raisePart p ≠ none)
    (hp : scan p = [.number n]) (hne : segments ≠ [])
    (hzero : slot segments 0 = .number n) (hr : minor version = some r)
    (hspans : ¬ r.Spans segments) : slot segments 1 = slot (Version.read version).segments 1 := by
  obtain ⟨hlower, upper, hupper, hru⟩ := minor_eq_some_iff.mp hr
  obtain ⟨s, rest, rfl⟩ := List.exists_cons_of_ne_nil hne
  obtain rfl : s = .number n := by simpa using hzero
  have hbelow : ∀ u ∈ r.upper, orderAll (.number n :: rest) (Version.read u).segments = .lt := by
    intro u hu
    obtain rfl : upper = u := Option.some.inj (hru.symm.trans hu)
    exact lt_majorLine_of_raise hparts hp hraise hupper rest
  -- The first numbers agree, so that only what is behind them counts.
  rw [hp, List.singleton_append] at hscan
  rw [hscan] at hnum hle ⊢
  rw [orderAll_cons_cons, order_self, Ordering.eq_then] at hle
  rw [slot_cons_succ, slot_cons_succ]
  exact slot_zero_behind_of_lt_minorLower hparts hp hmark
    (fun s hs => hnum s (List.mem_cons_of_mem _ hs))
    (fun s hs => hsegments s (List.mem_cons_of_mem _ hs)) hle hlower
    (lt_lower_of_not_spans hbelow hspans)

end Line

end Range

end UpdatePlanner
