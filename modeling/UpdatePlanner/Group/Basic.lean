import UpdatePlanner.Group.Rules
import UpdatePlanner.Ignore.Condition
import UpdatePlanner.Pattern.Set

/-!
# Dependency groups

A group collects dependencies that are updated together.  Its rules admit dependencies by name
and by kind; a ceiling caps the size of their updates, where the experimental rules are on.

## Main definitions

* `DependencyGroup` — a group and its members;
* `DependencyGroup.admits` — the dependencies that the rules let in;
* `DependencyGroup.contains` — the same, but members stay in;
* `DependencyGroup.ignored` — the ranges that the ceiling rules out.

## Main results

* `DependencyGroup.contains_of_members_nil` — without members, a group contains what it admits.
-/

namespace UpdatePlanner

/-- A set of dependencies that are updated together. -/
structure DependencyGroup where
  name : String
  rules : GroupRules
  included : PatternSet
  excluded : PatternSet
  experimental : Bool
  members : List Dependency
  deriving DecidableEq, Repr

namespace DependencyGroup

/-- The set of optional patterns; without any it matches nothing. -/
def patternSet? : Option (List String) → Except PolicyFailure PatternSet
  | some texts => PatternSet.read? texts
  | none => .ok .empty

/-- The group with given rules and no members.  A faulty pattern is reported before a faulty
exclusion. -/
def ofRules (name : String) (rules : GroupRules) (experimental : Bool) :
    Except PolicyFailure DependencyGroup :=
  match patternSet? rules.patterns with
  | .error fault => .error fault
  | .ok included =>
    match patternSet? rules.excludePatterns with
    | .error fault => .error fault
    | .ok excluded => .ok ⟨name, rules, included, excluded, experimental, []⟩

/-- The group that settings denote.  A faulty ceiling is reported before faulty patterns. -/
def read? (name : String) (settings : GroupSettings) (experimental : Bool) :
    Except PolicyFailure DependencyGroup :=
  match GroupRules.read? name settings with
  | .error fault => .error fault
  | .ok rules => ofRules name rules experimental

def hasMember (g : DependencyGroup) (name : String) : Bool :=
  g.members.any fun d => d.name == name

def addMember (g : DependencyGroup) (d : Dependency) : DependencyGroup :=
  { g with members := g.members ++ [d] }

/-- Whether the patterns, if there are any, match the name. -/
def admitsName (g : DependencyGroup) (name : String) : Bool :=
  g.rules.patterns.all fun _ => g.included.accepts name

/-- Whether the dependency fits the kind, if there is one. -/
def admitsKind (g : DependencyGroup) (d : Dependency) : Bool :=
  g.rules.kind.all fun k => k.fits d

/-- Whether the rules let a dependency in: it is not excluded, and what the rules say of names
and kinds holds of it.  Rules that say nothing let nothing in. -/
def admits (g : DependencyGroup) (d : Dependency) : Bool :=
  !g.excluded.accepts d.name && (g.rules.patterns.isSome || g.rules.kind.isSome) &&
    g.admitsName d.name && g.admitsKind d

/-- Whether a dependency belongs to the group: it is a member in name or is let in, and is not
excluded. -/
def contains (g : DependencyGroup) (d : Dependency) : Bool :=
  !g.excluded.accepts d.name && (g.hasMember d.name || g.admits d)

/-- The pattern of every name. -/
def everyName : NamePattern := ⟨"*", .gap⟩

/-- The condition by which a ceiling keeps larger updates away, with every later major line. -/
def ceilingCondition (c : Ceiling) : IgnoreCondition :=
  ⟨everyName, none, some c.kindsAbove, false, .unbounded⟩

/-- The ranges that the ceiling rules out for a dependency. -/
def ignored (g : DependencyGroup) (d : Dependency) : List String :=
  match g.rules.ceiling with
  | some c => if g.experimental then (ceilingCondition c).ignored d false else []
  | none => []

/-- Whether the group is open to the highest versions: it is not if the experimental rules are
on and cap it below major updates. -/
def targetsHighest (g : DependencyGroup) : Bool :=
  !g.experimental || g.rules.ceiling.all fun c => c.kindsAbove.isEmpty

theorem contains_of_members_nil {g : DependencyGroup} (h : g.members = []) (d : Dependency) :
    g.contains d = g.admits d := by
  simp only [contains, hasMember, h, List.any_nil, Bool.false_or, admits]
  cases g.excluded.accepts d.name <;> simp

end DependencyGroup

end UpdatePlanner
