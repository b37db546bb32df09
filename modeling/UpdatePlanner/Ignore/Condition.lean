import UpdatePlanner.Dependency
import UpdatePlanner.Ignore.Range
import UpdatePlanner.Pattern.Reader

/-!
# Ignore conditions

A condition names dependencies by a pattern and says which of their versions are never to be
proposed: given ranges, the ranges of given kinds of updates, or, if it says neither, every
version.  A list of kinds none of which is known ignores nothing.

## Main definitions

* `IgnoreCondition` — a condition;
* `IgnoreCondition.ignored` — the ranges it ignores for a dependency.

## Main results

* `IgnoreCondition.ignored_of_versions` — given ranges are taken as they are.
-/

namespace UpdatePlanner

/-- Which versions of which dependencies are never proposed. -/
structure IgnoreCondition where
  name : NamePattern
  versions : Option (List String)
  kinds : Option (List UpdateKind)
  /-- Whether the condition counts for security updates too. -/
  forSecurity : Bool
  reach : Reach
  deriving DecidableEq, Repr

namespace IgnoreCondition

/-- The condition that ignores every version of the dependencies with matching names. -/
def blanket (name : NamePattern) : IgnoreCondition :=
  ⟨name, none, none, false, .nextLine⟩

/-- The blanket condition for the names that a pattern covers. -/
def named? (pattern : String) : Except PolicyFailure IgnoreCondition :=
  (NamePattern.read? pattern).map blanket

def withVersions (c : IgnoreCondition) (versions : List String) : IgnoreCondition :=
  { c with versions := some versions }

/-- The condition with the given kinds of updates to ignore; no kinds are as good as none
given. -/
def withKinds (c : IgnoreCondition) (kinds : List UpdateKind) : IgnoreCondition :=
  { c with kinds := if kinds.isEmpty then none else some kinds }

/-- The condition with the kinds of updates that the given texts name.  Texts that name none are
dropped, but do not make the condition one that ignores everything. -/
def withKindNames (c : IgnoreCondition) (names : List String) : IgnoreCondition :=
  let kinds := names.filterMap UpdateKind.read?
  if kinds.isEmpty && !names.isEmpty then { c with kinds := some [] } else c.withKinds kinds

/-- The condition with the given say on security updates. -/
def withSecurity (c : IgnoreCondition) (forSecurity : Bool) : IgnoreCondition :=
  { c with forSecurity := forSecurity }

/-- Whether the condition is about the dependencies with a name. -/
def appliesTo (c : IgnoreCondition) (name : String) : Bool :=
  c.name.accepts name

/-- The ranges of the given kinds above a version, each once. -/
def kindRanges (kinds : List UpdateKind) (version : String) (reach : Reach) : List String :=
  (kinds.filterMap fun k => (Range.ofKind k version reach).map Range.render).eraseDups

/-- The ranges that the condition ignores for a dependency.  Given ranges come first; then a run
for security updates alone ignores nothing but what is marked for it. -/
def ignored (c : IgnoreCondition) (d : Dependency) (securityOnly : Bool) : List String :=
  match c.versions with
  | some versions => versions
  | none =>
    if securityOnly && !c.forSecurity then []
    else
      match c.kinds with
      | none => [Range.allVersions]
      | some kinds =>
        match d.version with
        | none => []
        | some version => kindRanges kinds version c.reach

theorem ignored_of_versions {c : IgnoreCondition} {versions : List String}
    (h : c.versions = some versions) (d : Dependency) (securityOnly : Bool) :
    c.ignored d securityOnly = versions := by
  simp [ignored, h]

end IgnoreCondition

end UpdatePlanner
