import UpdatePlanner.Report.Options
import UpdatePlanner.Report.Style
import UpdatePlanner.Report.Summary

/-!
# Reports for people

A report lists the updates by section and ends with a summary.  Names are padded to a common
width within a section; the width counts the bytes of the longest name, the padding characters.

## Main definitions

* `TextReport.sectionLines` — the lines of a section;
* `TextReport.summaryLines` — the lines of the summary;
* `TextReport.lines` — all the lines of a report.
-/

namespace UpdatePlanner.TextReport

variable (o : ReportOptions)

/-- What stands in front of headings when only security updates are made. -/
def securityMark (p : Plan) : String :=
  if p.securityOnly then Style.cyan.paint o.color "(security-only)" ++ " " else ""

/-- A text filled up with spaces to a number of characters. -/
def pad (width : Nat) (text : String) : String :=
  text ++ String.ofList (List.replicate (width - text.length) ' ')

/-- The width of the names of a section. -/
def nameWidth (s : Section) : Nat :=
  s.plans.foldl (fun width d => max width d.name.utf8ByteSize) 20

/-- The label of a change in brackets. -/
def changeLabel (c : Change) : String :=
  "[" ++ c.style.paint o.color c.label ++ "]"

def updateLine (width : Nat) (d : Dependency) (version : String) (releasedAt : Option Instant) :
    String :=
  let old := d.version.getD "(none)"
  let date := releasedAt.elim "" fun t => " (" ++ t.renderMinute ++ ")"
  let development := if d.isProduction then "" else " (dev)"
  "  " ++ pad width d.name ++ " " ++ Style.dimmed.paint o.color old ++ " " ++
    Style.dimmed.paint o.color (if o.color then "→" else "->") ++ " " ++
    Style.boldWhite.paint o.color version ++ " " ++ changeLabel o (Change.between old version) ++
    Style.dimmed.paint o.color date ++ Style.dimmed.paint o.color development

def skipLine (width : Nat) (d : Dependency) (reason : SkipReason) : String :=
  "  " ++ Style.dimmed.paint o.color (pad width d.name) ++ " " ++
    Style.dimmed.paint o.color ("(" ++ reason.brief ++ ")")

def decisionLine (width : Nat) : Decision → String
  | .update d version releasedAt => updateLine o width d version releasedAt
  | .skip d reason => skipLine o width d reason

/-- The line of the ignored ranges, if there are any. -/
def ignoredLines (ranges : List String) : List String :=
  if ranges.isEmpty then []
  else [Style.dimmed.paint o.color ("    ignored: " ++ " | ".intercalate ranges)]

/-- The lines of a dependency; its ignored ranges stand in verbose reports. -/
def dependencyLines (width : Nat) (d : PlannedDependency) : List String :=
  decisionLine o width d.decision ::
    (if o.verbosity = .verbose then ignoredLines o d.ignored else [])

/-- A number with a noun.  Plain reports use the plural always. -/
def countOf (n : Nat) (style : Style) (singular plural : String) : String :=
  style.paint o.color (toString n) ++ " " ++ (if o.color && n == 1 then singular else plural)

def heading (p : Plan) (s : Section) : String :=
  securityMark o p ++ Style.bold.paint o.color s.title ++ " — " ++
    countOf o s.updates.length .green "update" "updates" ++ ", " ++
    countOf o s.skips.length .dimmed "skip" "skips"

/-- Whether a section is shown: it has updates, or skips that a verbose report shows. -/
def isShown (s : Section) : Bool :=
  !s.updates.isEmpty || (o.verbosity == .verbose && !s.skips.isEmpty)

def skippedLines (s : Section) : List String :=
  if o.verbosity = .verbose && !s.skips.isEmpty then
    ["", "  " ++ Style.dimmed.paint o.color "Skipped:"] ++
      s.skips.flatMap (dependencyLines o (nameWidth s))
  else
    []

/-- The lines of a section, if it is shown. -/
def sectionLines (p : Plan) (s : Section) : List String :=
  if isShown o s then
    [heading o p s] ++ s.updates.flatMap (dependencyLines o (nameWidth s)) ++
      skippedLines o s ++ [""]
  else
    []

def failureLines (p : Plan) : List String :=
  if p.failures.isEmpty then []
  else
    [Style.boldRed.paint o.color "Errors" ++ ":"] ++
      p.failures.map (fun f =>
        "  " ++ Style.red.paint o.color (if o.color then "✗" else "-") ++ " " ++ f.render) ++
      [""]

/-- The one line of a quiet report. -/
def quietLine (p : Plan) : String :=
  securityMark o p ++
    (if p.updates.isEmpty then Style.dimmed.paint o.color "No updates"
    else Style.green.paint o.color (toString p.updates.length) ++ " to update")

/-- The style of the count of a change. -/
def countStyle : Change → Style
  | .major => .red
  | .minor => .yellow
  | .patch => .green
  | .unknown => .dimmed

/-- The line that counts the updates, by size of the change. -/
def updatesLine (p : Plan) : String :=
  if p.updates.isEmpty then
    "  " ++ Style.dimmed.paint o.color "No packages to update"
  else
    let counts := p.changeCounts.map fun (n, c, word) =>
      (countStyle c).paint o.color (toString n) ++ " " ++ word
    "  " ++ Style.green.paint o.color (toString p.updates.length) ++ " package(s) to update (" ++
      ", ".intercalate counts ++ ")"

/-- The line that counts the skips, in verbose reports by reason. -/
def skipsLine (p : Plan) : String :=
  let counts := p.reasonCounts.map fun (reason, n) => toString n ++ " " ++ reason
  "  " ++ Style.dimmed.paint o.color (toString p.skips.length) ++ " package(s) skipped" ++
    (if o.verbosity = .verbose && !counts.isEmpty then " (" ++ ", ".intercalate counts ++ ")"
    else "")

/-- The lines that count by package manager. -/
def managerLines (p : Plan) : List String :=
  ["", Style.dimmed.paint o.color "By package manager" ++ ":"] ++
    p.managerCounts.map fun n =>
      "  " ++ Style.cyan.paint o.color n.manager.title ++ ": " ++
        Style.green.paint o.color (toString n.updates) ++ " to update, " ++
        Style.dimmed.paint o.color (toString n.skips) ++ " skipped"

def summaryLines (p : Plan) : List String :=
  if o.verbosity = .quiet then
    [quietLine o p]
  else
    [securityMark o p ++ Style.bold.paint o.color "Summary" ++ ":", updatesLine o p,
      skipsLine o p] ++
      (if o.verbosity = .verbose then managerLines o p else [])

/-- The lines of a report.  A quiet report is its summary. -/
def lines (p : Plan) : List String :=
  if o.verbosity = .quiet then summaryLines o p
  else p.sections.flatMap (sectionLines o p) ++ failureLines o p ++ summaryLines o p

/-- Lines as one text. -/
def ofLines (lines : List String) : String :=
  String.join (lines.map (· ++ "\n"))

end UpdatePlanner.TextReport
