/-!
# What can go wrong

A *policy* failure is a fault in the rules of a job: a group, a requirement or a name pattern.  A
*configuration* failure is a fault in how the job was given.  Each constructor is a cause and
carries what its message shows.

## Main definitions

* `PolicyFailure`, `ConfigFailure` — the causes;
* `PolicyFailure.message`, `ConfigFailure.message` — their wording;
* `Failure` — either of them.
-/

namespace UpdatePlanner

/-- A fault in the rules of a job. -/
inductive PolicyFailure where
  /-- A rule of a group has a value outside the allowed ones. -/
  | invalidGroup (group key value : String)
  | alreadyAssigned
  | invalidRequirement (requirement reason : String)
  | invalidPattern (pattern reason : String)
  | unsearchablePattern (pattern : String)
  | notRendered (group reason : String)
  deriving DecidableEq, Repr

def PolicyFailure.message : PolicyFailure → String
  | invalidGroup group key value =>
    "invalid configuration for dependency group '" ++ group ++ "': " ++ key ++
      " must be one of major, minor, patch (got '" ++ value ++ "')"
  | alreadyAssigned => "dependency groups have already been configured"
  | invalidRequirement requirement reason =>
    "invalid version requirement '" ++ requirement ++ "': " ++ reason
  | invalidPattern pattern reason =>
    "invalid dependency name pattern '" ++ pattern ++ "': " ++ reason
  | unsearchablePattern pattern =>
    "dependency name pattern '" ++ pattern ++ "' is nested too deeply"
  | notRendered group reason =>
    "failed to render dependency group '" ++ group ++ "': " ++ reason

/-- A fault in how a job was given. -/
inductive ConfigFailure where
  | unreadable (path reason : String)
  | malformed (path reason : String)
  | unknownManager (value : String)
  | invalidDuration (value : String)
  deriving DecidableEq, Repr

def ConfigFailure.message : ConfigFailure → String
  | unreadable path reason => "failed to read job file " ++ path ++ ": " ++ reason
  | malformed path reason => "failed to parse YAML in " ++ path ++ ": " ++ reason
  | unknownManager value => "unknown package manager '" ++ value ++ "'"
  | invalidDuration value =>
    "invalid duration format '" ++ value ++ "': expected format like '2w', '10d', '1m'"

/-- Either kind of fault. -/
inductive Failure where
  | policy (cause : PolicyFailure)
  | config (cause : ConfigFailure)
  deriving DecidableEq, Repr

def Failure.message : Failure → String
  | policy cause => cause.message
  | config cause => cause.message

end UpdatePlanner
