import UpdatePlanner.Calendar.Instant
import UpdatePlanner.Dependency

/-!
# Decisions

## Main definitions

* `SkipReason` — why a dependency is left as it is;
* `Decision` — an update of a dependency, or a reason to skip it;
* `SkipReason.render`, `Decision.render` — both in one line.
-/

namespace UpdatePlanner

/-- Why a dependency is left as it is. -/
inductive SkipReason where
  | nothingOffered
  | allIgnored
  /-- What is not ignored is a pre-release or too recent. -/
  | nothingSuitable
  | alreadyLatest
  | invalidRange (message : String)
  deriving DecidableEq, Repr

def SkipReason.render : SkipReason → String
  | nothingOffered => "no versions available"
  | allIgnored => "all versions ignored"
  | nothingSuitable => "no suitable version"
  | alreadyLatest => "already at latest"
  | invalidRange message => "invalid ignore range: " ++ message

/-- What is decided for a dependency. -/
inductive Decision where
  | update (dependency : Dependency) (version : String) (releasedAt : Option Instant)
  | skip (dependency : Dependency) (reason : SkipReason)
  deriving DecidableEq, Repr

namespace Decision

def dependency : Decision → Dependency
  | update d _ _ => d
  | skip d _ => d

def isUpdate : Decision → Bool
  | update .. => true
  | skip .. => false

def newVersion? : Decision → Option String
  | update _ version _ => some version
  | skip .. => none

def skipReason? : Decision → Option SkipReason
  | update .. => none
  | skip _ reason => some reason

def name (r : Decision) : String :=
  r.dependency.name

/-- A decision in one line. -/
def render : Decision → String
  | update d version _ => d.name ++ ": " ++ d.version.getD "(none)" ++ " → " ++ version
  | skip d reason => d.name ++ ": skipped (" ++ reason.render ++ ")"

end Decision

end UpdatePlanner
