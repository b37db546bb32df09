import UpdatePlanner.PackageManager

/-!
# Dependencies

## Main definitions

* `Dependency` — a package that a manifest depends on;
* `Dependency.isProduction` — whether it is needed in production;
* `Dependency.render` — the dependency in one line.
-/

namespace UpdatePlanner

/-- A package that a manifest depends on. -/
structure Dependency where
  name : String
  version : Option String
  manager : PackageManager
  labels : List String
  deriving DecidableEq, Repr

namespace Dependency

/-- Whether the dependency is needed in production. -/
def isProduction (d : Dependency) : Bool :=
  d.manager.isProduction d.labels

/-- The dependency in one line. -/
def render (d : Dependency) : String :=
  d.name ++ (d.version.elim "" ("@" ++ ·)) ++ (if d.isProduction then "" else " (dev)") ++
    " [" ++ d.manager.title ++ "]"

end Dependency

end UpdatePlanner
