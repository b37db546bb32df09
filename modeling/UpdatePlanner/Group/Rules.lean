import UpdatePlanner.Dependency
import UpdatePlanner.Ignore.UpdateKind

/-!
# Rules of a group

A group's settings are what configuration says, as text.  Checking them gives its rules; the one
setting that can be wrong is the ceiling, the largest kind of update that the group may contain.

## Main definitions

* `GroupSettings` — the rules of a group as text;
* `Ceiling`, `DependencyKind`, `GroupRules` — the rules themselves;
* `GroupRules.read?` — the rules that settings denote;
* `GroupRules.settings` — the settings that denote given rules.

## Main results

* `GroupRules.read?_settings` — rules that are written are read back.
-/

namespace UpdatePlanner

/-- The rules of a group as configuration gives them. -/
structure GroupSettings where
  patterns : Option (List String)
  excludePatterns : Option (List String)
  dependencyType : Option String
  highestAllowed : Option String
  deriving DecidableEq, Repr

def GroupSettings.none : GroupSettings := ⟨.none, .none, .none, .none⟩

/-- The largest kind of update that a group may contain. -/
inductive Ceiling where
  | major
  | minor
  | patch
  deriving DecidableEq, Repr

namespace Ceiling

def name : Ceiling → String
  | major => "major"
  | minor => "minor"
  | patch => "patch"

def ofName? (name : String) : Option Ceiling :=
  [major, minor, patch].find? fun c => c.name == name

/-- The kinds of updates above the ceiling, larger ones first. -/
def kindsAbove : Ceiling → List UpdateKind
  | major => []
  | minor => [.major]
  | patch => [.major, .minor]

@[simp] theorem ofName?_name (c : Ceiling) : ofName? c.name = some c := by
  cases c <;> decide

end Ceiling

/-- The dependencies that a group is restricted to. -/
inductive DependencyKind where
  | production
  | development
  /-- A word without meaning, which no dependency fits. -/
  | other (word : String)
  deriving DecidableEq, Repr

namespace DependencyKind

/-- The restriction that a word denotes. -/
def ofWord (word : String) : DependencyKind :=
  if word = "production" then production
  else if word = "development" then development
  else other word

/-- The word for a restriction. -/
def word : DependencyKind → String
  | production => "production"
  | development => "development"
  | other w => w

def fits (k : DependencyKind) (d : Dependency) : Bool :=
  match k with
  | production => d.isProduction
  | development => !d.isProduction
  | other _ => false

theorem ofWord_word_ofWord (w : String) : ofWord (ofWord w).word = ofWord w := by
  by_cases hp : w = "production"
  · simp [ofWord, hp, word]
  · by_cases hd : w = "development"
    · simp [ofWord, hd, word]
    · simp [ofWord, hp, hd, word]

@[simp] theorem word_ofWord (w : String) : (ofWord w).word = w := by
  by_cases hp : w = "production"
  · simp [ofWord, hp, word]
  · by_cases hd : w = "development"
    · simp [ofWord, hd, word]
    · simp [ofWord, hp, hd, word]

end DependencyKind

structure GroupRules where
  patterns : Option (List String)
  excludePatterns : Option (List String)
  kind : Option DependencyKind
  ceiling : Option Ceiling
  deriving DecidableEq, Repr

namespace GroupRules

/-- The key under which configuration gives the ceiling. -/
def ceilingKey : String := "highest-semver-allowed"

/-- The rules with a ceiling that was read. -/
def withCeiling (s : GroupSettings) (ceiling : Option Ceiling) : GroupRules :=
  ⟨s.patterns, s.excludePatterns, s.dependencyType.map DependencyKind.ofWord, ceiling⟩

/-- The rules that settings denote; a ceiling with an unknown name is reported for the group. -/
def read? (group : String) (s : GroupSettings) : Except PolicyFailure GroupRules :=
  match s.highestAllowed with
  | none => .ok (withCeiling s none)
  | some name =>
    match Ceiling.ofName? name with
    | some c => .ok (withCeiling s (some c))
    | none => .error (.invalidGroup group ceilingKey name)

/-- The settings that denote the rules. -/
def settings (r : GroupRules) : GroupSettings :=
  ⟨r.patterns, r.excludePatterns, r.kind.map DependencyKind.word, r.ceiling.map Ceiling.name⟩

theorem settings_of_read? {group : String} {s : GroupSettings} {r : GroupRules}
    (h : read? group s = .ok r) : r.settings = s := by
  obtain ⟨patterns, excludePatterns, type, highest⟩ := s
  have ht : (type.map DependencyKind.ofWord).map DependencyKind.word = type := by
    cases type <;> simp
  cases highest with
  | none =>
    simp only [read?, Except.ok.injEq] at h
    simp [← h, settings, withCeiling, ht]
  | some name =>
    simp only [read?] at h
    split at h
    · next c hc =>
      simp only [Except.ok.injEq] at h
      have hn : c.name = name := by
        have := List.find?_some hc
        simpa using this
      simp [← h, settings, withCeiling, ht, hn]
    · simp at h

theorem read?_settings {group : String} {s : GroupSettings} {r : GroupRules}
    (h : read? group s = .ok r) (other : String) : read? other r.settings = .ok r := by
  rw [settings_of_read? h]
  simp only [read?] at h ⊢
  split at h
  · exact h
  · split at h
    · exact h
    · simp at h

end GroupRules

end UpdatePlanner
