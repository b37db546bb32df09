/-!
# Report options

## Main definitions

* `Verbosity` — how much a report says;
* `ReportOptions` — how a report is written.
-/

namespace UpdatePlanner

/-- How much a report says. -/
inductive Verbosity where
  | quiet
  | normal
  /-- Ignored ranges, skipped dependencies and counts by package manager too. -/
  | verbose
  deriving DecidableEq, Repr

/-- How a report is written. -/
structure ReportOptions where
  json : Bool
  verbosity : Verbosity
  color : Bool
  deriving DecidableEq, Repr

/-- The options that switches ask for; quiet wins over verbose. -/
def ReportOptions.ofSwitches (json verbose quiet color : Bool) : ReportOptions :=
  ⟨json, if quiet then .quiet else if verbose then .verbose else .normal, color⟩

end UpdatePlanner
