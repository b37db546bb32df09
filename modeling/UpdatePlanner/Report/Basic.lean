import UpdatePlanner.Report.Data
import UpdatePlanner.Report.Text

/-!
# Reports

## Main definitions

* `Plan.report` — a plan as a report;
* `Plan.summary` — the summary of that report alone.
-/

namespace UpdatePlanner.Plan

/-- A plan as a report. -/
def report (p : Plan) (o : ReportOptions) : String :=
  if o.json then (DataReport.report o.verbosity p).pretty ++ "\n"
  else TextReport.ofLines (TextReport.lines o p)

/-- The summary of a report alone. -/
def summary (p : Plan) (o : ReportOptions) : String :=
  if o.json then (DataReport.summary o.verbosity p).pretty ++ "\n"
  else TextReport.ofLines (TextReport.summaryLines o p)

end UpdatePlanner.Plan
