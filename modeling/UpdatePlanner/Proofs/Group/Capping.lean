import UpdatePlanner.Proofs.Ignore.Ceiling

/-!
# Capped groups

A group says whether it is open to the highest versions, and it rules out ranges of its own. The
first is read off the rules, the second comes from a condition that is made of them, and both look
at the switch of the experimental rules. They agree: a group that says that it is open rules out
nothing, and one that says that it is capped rules something out wherever there is a version to
compute a range from. Where the switch is off, the ceiling counts for nothing in either way, so that
the group may as well be without one.

## Main definitions

* `GroupSettings.uncapped`, `GroupRules.uncapped`, `DependencyGroup.uncapped`: the same without a
  ceiling
* `GroupSettings.HasValidCeiling s`: the ceiling is a known one, if there is any

## Main results

* `DependencyGroup.targetsHighest_eq_false_iff`: the groups that are capped
* `DependencyGroup.ignored_eq_nil_of_targetsHighest`, `DependencyGroup.ignored_ne_nil_of_capped`:
  what open groups and capped ones rule out
* `DependencyGroup.read?_uncapped`: a group without its ceiling is read as the group is
-/

namespace UpdatePlanner

open Version

/-! ## Open and capped groups -/

/-- The one ceiling that does not cap is that for major updates, which has no kinds above it. -/
theorem Ceiling.kindsAbove_eq_nil_iff {c : Ceiling} : c.kindsAbove = [] ↔ c = .major := by
  cases c <;> simp [kindsAbove]

/-- Every other ceiling is below major updates. -/
theorem Ceiling.major_mem_kindsAbove {c : Ceiling} (h : c ≠ .major) : .major ∈ c.kindsAbove := by
  cases c with
  | major => exact absurd rfl h
  | minor => exact List.mem_cons_self
  | patch => exact List.mem_cons_self

namespace DependencyGroup

variable {g : DependencyGroup} {d : Dependency}

/-- **The groups that are capped**: the experimental rules are on, and the ceiling is one below
major updates. -/
theorem targetsHighest_eq_false_iff :
    g.targetsHighest = false ↔
      g.experimental = true ∧ ∃ c, g.rules.ceiling = some c ∧ c ≠ .major := by
  rw [targetsHighest, Bool.or_eq_false_iff, Bool.not_eq_false']
  cases g.rules.ceiling with
  | none => simp
  | some c => simp [Ceiling.kindsAbove_eq_nil_iff]

/-- **An open group rules out nothing.** -/
theorem ignored_eq_nil_of_targetsHighest (h : g.targetsHighest = true) (d : Dependency) :
    g.ignored d = [] := by
  unfold ignored
  cases hceiling : g.rules.ceiling with
  | none => rfl
  | some c =>
    cases hexperimental : g.experimental with
    | false => rfl
    | true =>
      -- The switch is on, so the ceiling is one that has no kinds above it.
      have hkinds : c.kindsAbove = [] := by
        simpa [targetsHighest, hexperimental, hceiling] using h
      cases hversion : d.version <;>
        simp [ceilingCondition, IgnoreCondition.ignored, IgnoreCondition.kindRanges, hversion,
          hkinds]

/-- **A capped group rules out something** for every dependency whose version has a part. -/
theorem ignored_ne_nil_of_capped (h : g.targetsHighest = false) {version : String}
    (hversion : d.version = some version) (hparts : parts version ≠ []) : g.ignored d ≠ [] := by
  obtain ⟨hexperimental, c, hceiling, hc⟩ := targetsHighest_eq_false_iff.mp h
  obtain ⟨p, ps, hpartsOf⟩ := List.exists_cons_of_ne_nil (mt List.map_eq_nil_iff.mpr hparts)
  -- Either ceiling rules out the later major lines, and there are some above every first part.
  obtain ⟨r, hr⟩ := Range.exists_major_unbounded hpartsOf
  have hrange : r.render ∈ g.ignored d := by
    rw [ignored_eq_kindRanges hexperimental hceiling hversion]
    exact IgnoreCondition.mem_kindRanges_iff.mpr
      ⟨.major, Ceiling.major_mem_kindsAbove hc, r, hr, rfl⟩
  exact List.ne_nil_of_mem hrange

end DependencyGroup

/-! ## Groups without their ceilings -/

/-- The settings without the ceiling. -/
def GroupSettings.uncapped (s : GroupSettings) : GroupSettings :=
  { s with highestAllowed := Option.none }

/-- The ceiling is a known one, if there is any. -/
def GroupSettings.HasValidCeiling (s : GroupSettings) : Prop :=
  ∀ name, s.highestAllowed = some name → ∃ c : Ceiling, c.name = name

/-- The rules without the ceiling. -/
def GroupRules.uncapped (r : GroupRules) : GroupRules :=
  { r with ceiling := none }

theorem GroupRules.read?_uncapped {name : String} {s : GroupSettings} (h : s.HasValidCeiling) :
    read? name s.uncapped = (read? name s).map uncapped := by
  have hopen : read? name s.uncapped = .ok (withCeiling s none) := rfl
  rw [hopen, read?]
  cases hceiling : s.highestAllowed with
  | none => rfl
  | some text =>
    obtain ⟨c, rfl⟩ := h text hceiling
    simp only [Ceiling.ofName?_name]
    rfl

namespace DependencyGroup

/-- The group without its ceiling. -/
def uncapped (g : DependencyGroup) : DependencyGroup :=
  { g with rules := g.rules.uncapped }

theorem ofRules_uncapped (name : String) (rules : GroupRules) (e : Bool) :
    ofRules name rules.uncapped e = (ofRules name rules e).map uncapped := by
  have hpatterns : rules.uncapped.patterns = rules.patterns := rfl
  have hexcluded : rules.uncapped.excludePatterns = rules.excludePatterns := rfl
  rw [ofRules, ofRules, hpatterns, hexcluded]
  cases patternSet? rules.patterns with
  | error fault => rfl
  | ok included => cases patternSet? rules.excludePatterns <;> rfl

/-- **A group without its ceiling is read as the group is**, unless the ceiling is the fault. -/
theorem read?_uncapped {name : String} {s : GroupSettings} (h : s.HasValidCeiling) (e : Bool) :
    read? name s.uncapped e = (read? name s e).map uncapped := by
  rw [read?, read?, GroupRules.read?_uncapped h]
  cases GroupRules.read? name s with
  | error fault => rfl
  | ok rules => exact ofRules_uncapped name rules e

theorem experimental_of_read? {name : String} {s : GroupSettings} {e : Bool} {g : DependencyGroup}
    (h : read? name s e = .ok g) : g.experimental = e := by
  obtain ⟨rules, included, excluded, -, -, -, rfl⟩ := read?_eq_ok_iff.mp h
  rfl

/-- Where the experimental rules are off, a group is open whatever its ceiling is. -/
theorem targetsHighest_of_experimental_eq_false {g : DependencyGroup} (h : g.experimental = false) :
    g.targetsHighest = true := by
  rw [targetsHighest, h]
  rfl

section Off

variable {g : DependencyGroup} (h : g.experimental = false)
include h

/-- Without a ceiling that is switched off, the group says the same of itself. -/
theorem targetsHighest_uncapped : g.uncapped.targetsHighest = g.targetsHighest := by
  have hoff : g.uncapped.experimental = false := h
  rw [targetsHighest_of_experimental_eq_false hoff, targetsHighest_of_experimental_eq_false h]

/-- Without a ceiling that is switched off, the group rules out the same. -/
theorem ignored_uncapped (d : Dependency) : g.uncapped.ignored d = g.ignored d := by
  have hopen := targetsHighest_of_experimental_eq_false h
  rw [ignored_eq_nil_of_targetsHighest hopen,
    ignored_eq_nil_of_targetsHighest ((targetsHighest_uncapped h).trans hopen)]

end Off

end DependencyGroup

end UpdatePlanner
