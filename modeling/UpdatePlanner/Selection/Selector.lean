import UpdatePlanner.Calendar.Duration
import UpdatePlanner.Requirement.Reader
import UpdatePlanner.Selection.Candidate
import UpdatePlanner.Selection.Decision

/-!
# Selecting a version

A candidate is *eligible* if it is in no ignored range, is no pre-release unless the version in
use is one, and is old enough.  The highest eligible candidate is proposed if it is above the
version in use.

## Main definitions

* `Selector` — the ranges to ignore and the age to wait for;
* `Selector.isEligible` — the candidates that may be proposed;
* `Selector.select` — the decision for a dependency.
-/

namespace UpdatePlanner

/-- What a selection goes by. -/
structure Selector where
  ignored : List Requirement
  /-- How long ago a candidate has to be released. -/
  minAge : Option Duration
  now : Instant
  deriving DecidableEq, Repr

namespace Selector

/-- The selector that ignores the ranges that the texts denote; the first faulty text is
reported. -/
def read? (ranges : List String) (minAge : Option Duration) (now : Instant) :
    Except PolicyFailure Selector :=
  (ranges.mapM Requirement.read?).map fun ignored => ⟨ignored, minAge, now⟩

/-- Whether a version is in some ignored range. -/
def ignores (s : Selector) (v : Version) : Bool :=
  s.ignored.any fun r => r.admits v

/-- The time by which a candidate has to be released, if there is one. -/
def cutoff (s : Selector) : Option Instant :=
  s.minAge.map s.now.earlier

/-- Whether pre-releases may be proposed: only where one is in use. -/
def allowsPrereleases (d : Dependency) : Bool :=
  d.version.any fun v => (Version.read v).isPrerelease

/-- Whether a candidate is a release, or a pre-release that may be proposed, and old enough. -/
def isSuitable (s : Selector) (d : Dependency) (c : Candidate) : Bool :=
  (allowsPrereleases d || !c.isPrerelease) && s.cutoff.all fun t => c.releasedBy t

/-- Whether a candidate may be proposed. -/
def isEligible (s : Selector) (d : Dependency) (c : Candidate) : Bool :=
  !s.ignores c.parsed && s.isSuitable d c

/-- Whether a candidate is above the version in use; without one, every candidate is. -/
def isAbove (d : Dependency) (c : Candidate) : Bool :=
  d.version.all fun v => (compare (Version.read v) c.parsed).isLT

/-- The decision for a dependency to which the candidates are offered. -/
def select (s : Selector) (d : Dependency) (offered : List Candidate) : Decision :=
  if offered.isEmpty then
    .skip d .nothingOffered
  -- Neither pre-releases nor dates count here: they are reasons of their own.
  else if offered.all fun c => s.ignores c.parsed then
    .skip d .allIgnored
  else
    match Candidate.highest? (offered.filter (s.isEligible d)) with
    | none => .skip d .nothingSuitable
    | some best =>
      if isAbove d best then .update d best.version best.releasedAt
      else .skip d .alreadyLatest

end Selector

end UpdatePlanner
