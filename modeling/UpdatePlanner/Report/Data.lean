import UpdatePlanner.Data.Json
import UpdatePlanner.Report.Options
import UpdatePlanner.Report.Summary
import UpdatePlanner.Selection.Encoding

/-!
# Reports for programs

A report for programs is a JSON value.  Lists that would be empty are left out where they do not
belong to every report.

## Main definitions

* `DataReport.summary` — the summary as data;
* `DataReport.report` — a whole report as data.
-/

namespace UpdatePlanner.DataReport

/-- A field that is left out where its list is empty. -/
def listField (name : String) (items : List Json) : List (String × Json) :=
  if items.isEmpty then [] else [(name, .array items)]

/-- The count of a package manager. -/
def managerCount (n : ManagerCount) : Json :=
  .object [("package_manager", .string n.manager.id), ("updates", .ofNat n.updates),
    ("skips", .ofNat n.skips)]

/-- The summary; verbose ones count by package manager. -/
def summary (v : Verbosity) (p : Plan) : Json :=
  .object <|
    [("updates", .ofNat p.updates.length), ("skips", .ofNat p.skips.length)] ++
      listField "by_package_manager"
        (if v = .verbose then p.managerCounts.map managerCount else [])

def group (g : PlannedGroup) : Json :=
  .object [("name", .string g.name), ("targets_highest_versions", .bool g.targetsHighest),
    ("dependencies", .ofTexts g.members)]

/-- The text of a reason, with the message behind its word if it has one. -/
def reason (r : SkipReason) : String :=
  match r with
  | .invalidRange message => SkipReason.invalidRangeWord ++ ": " ++ message
  | r => r.word

/-- An update, or a skip, of a dependency. -/
def planned (d : PlannedDependency) : Json :=
  match d.decision with
  | .update dependency version _ =>
    .object <|
      [("name", .string dependency.name)] ++
        presentField "from" (dependency.version.map .string) ++
        [("to", .string version), ("change", .string d.change.label),
          ("dev", .bool !dependency.isProduction)] ++
        listField "groups" (d.groups.map .string) ++
        listField "ignored_versions" (d.ignored.map .string)
  | .skip dependency r =>
    .object <|
      [("name", .string dependency.name)] ++
        presentField "version" (dependency.version.map .string) ++
        [("reason", .string (reason r))] ++
        listField "ignored_versions" (d.ignored.map .string)

/-- A whole report; verbose ones list the skips. -/
def report (v : Verbosity) (p : Plan) : Json :=
  .object <|
    [("security_updates_only", .bool p.securityOnly), ("summary", summary v p),
      ("groups", .array (p.groups.map group)), ("ungrouped", .ofTexts p.ungrouped),
      ("updates", .array (p.updates.map planned))] ++
      listField "skips" (if v = .verbose then p.skips.map planned else []) ++
      listField "errors" (p.failures.map fun f => .string f.render)

end UpdatePlanner.DataReport
