import UpdatePlanner.Proofs.Report.Counts
import UpdatePlanner.Report.Data
import UpdatePlanner.Report.Text

/-!
# Both kinds of reports count alike

What a summary says about a plan is a handful of numbers. The summary for people is written from
them, and the report for programs holds them, along with a label for each update that is counted.
The line of an update shows the same label, although it is found from a placeholder where no
version is in use.

## Main definitions

* `Tally`, `Plan.tally`: the numbers of a summary
* `Tally.Counts`: the numbers count what is planned
* `TextReport.tallyLines`, `TextReport.labelledLine`: a summary and the line of an update, from
  what they show
* `DataReport.changeLabels`, `DataReport.managerRows`: what a report for programs holds
* `DataReport.Holds`: a report for programs holds the numbers

## Main results

* `Plan.counts_tally`: the numbers are those of the plan, and add up
* `TextReport.summaryLines_eq_tallyLines`, `DataReport.holds_tally`: both reports show them
* `TextReport.decisionLine_eq_labelledLine`: the line of an update shows the label it is counted by
* `Plan.reports_count_alike`: the four together
-/

namespace UpdatePlanner

/-- The numbers of a summary. -/
structure Tally where
  updates : Nat
  skips : Nat
  changes : Change → Nat
  reasons : List (String × Nat)
  managers : List ManagerCount

/-- The numbers of a summary count what is planned: the updates by size, the skips by the text of
their reason, and both by package manager. -/
structure Tally.Counts (t : Tally) (p : Plan) : Prop where
  updates : t.updates = p.updates.length
  skips : t.skips = p.skips.length
  changes (c : Change) : t.changes c = p.updates.countP fun d => d.change == c
  sum_changes :
    t.changes .major + t.changes .minor + t.changes .patch + t.changes .unknown = t.updates
  mem_reasons (r : String) (n : Nat) : (r, n) ∈ t.reasons ↔ 0 < n ∧
    n = p.skips.countP fun d => d.decision.skipReason?.map SkipReason.brief == some r
  nodup_reasons : (t.reasons.map Prod.fst).Nodup
  pairwise_reasons : t.reasons.Pairwise fun a b => b.2 < a.2 ∨ a.2 = b.2 ∧ a.1 < b.1
  sum_reasons : (t.reasons.map Prod.snd).sum = t.skips
  nodup_managers : (t.managers.map ManagerCount.manager).Nodup
  perm_managers : (t.managers.flatMap fun n => p.managedBy n.manager).Perm p.dependencies
  manager_updates : ∀ n ∈ t.managers, n.updates = (p.managedBy n.manager).countP fun d => d.isUpdate
  manager_skips : ∀ n ∈ t.managers, n.skips = (p.managedBy n.manager).countP fun d => !d.isUpdate
  sum_manager_updates : (t.managers.map ManagerCount.updates).sum = t.updates
  sum_manager_skips : (t.managers.map ManagerCount.skips).sum = t.skips

namespace Plan

variable (p : Plan)

def tally : Tally :=
  ⟨p.updates.length, p.skips.length, p.changeCount, p.reasonCounts, p.managerCounts⟩

theorem counts_tally : p.tally.Counts p where
  updates := rfl
  skips := rfl
  changes _ := rfl
  sum_changes := p.sum_changeCount
  mem_reasons r n := by
    rw [← count_skipTexts, tally, mem_reasonCounts_iff]
    constructor
    · rintro ⟨hr, rfl⟩
      exact ⟨List.count_pos_iff.mpr hr, rfl⟩
    · rintro ⟨hn, rfl⟩
      exact ⟨List.count_pos_iff.mp hn, rfl⟩
  nodup_reasons := p.nodup_fst_reasonCounts
  pairwise_reasons := p.pairwise_reasonCounts
  sum_reasons := p.sum_reasonCounts
  nodup_managers := p.nodup_managerCounts
  perm_managers := p.perm_flatMap_managerCounts
  manager_updates _ hn := p.updates_of_mem_managerCounts hn
  manager_skips _ hn := p.skips_of_mem_managerCounts hn
  sum_manager_updates := p.sum_updates_managerCounts
  sum_manager_skips := p.sum_skips_managerCounts

end Plan

/-! ### Reports for people -/

namespace TextReport

variable (o : ReportOptions)

/-- The counts of the sizes that occur, each with its word. -/
def sizesText (changes : Change → Nat) : String :=
  let occurring := Plan.changeWords.filter fun (c, _) => 0 < changes c
  ", ".intercalate <| occurring.map fun (c, word) =>
    (countStyle c).paint o.color (toString (changes c)) ++ " " ++ word

/-- The line of the updates. -/
def updateTotal (t : Tally) : String :=
  if t.updates = 0 then "  " ++ Style.dimmed.paint o.color "No packages to update"
  else "  " ++ Style.green.paint o.color (toString t.updates) ++ " package(s) to update (" ++
    sizesText o t.changes ++ ")"

/-- The line of the skips, in verbose reports with the counts of the reasons. -/
def skipTotal (t : Tally) : String :=
  "  " ++ Style.dimmed.paint o.color (toString t.skips) ++ " package(s) skipped" ++
    if o.verbosity = .verbose ∧ t.reasons ≠ [] then
      " (" ++ ", ".intercalate (t.reasons.map fun (r, n) => toString n ++ " " ++ r) ++ ")"
    else ""

/-- The line of a package manager. -/
def managerTotal (n : ManagerCount) : String :=
  "  " ++ Style.cyan.paint o.color n.manager.title ++ ": " ++
    Style.green.paint o.color (toString n.updates) ++ " to update, " ++
    Style.dimmed.paint o.color (toString n.skips) ++ " skipped"

/-- A summary that is written from its numbers, behind a mark. -/
def tallyLines (mark : String) (t : Tally) : List String :=
  let title := mark ++ Style.bold.paint o.color "Summary" ++ ":"
  match o.verbosity with
  | .quiet =>
    [mark ++ if t.updates = 0 then Style.dimmed.paint o.color "No updates"
      else Style.green.paint o.color (toString t.updates) ++ " to update"]
  | .normal => [title, updateTotal o t, skipTotal o t]
  | .verbose =>
    [title, updateTotal o t, skipTotal o t, "",
      Style.dimmed.paint o.color "By package manager" ++ ":"] ++ t.managers.map (managerTotal o)

variable (p : Plan)

theorem isEmpty_updates_iff : p.updates.isEmpty ↔ p.tally.updates = 0 := by
  rw [List.isEmpty_iff, Plan.tally, List.length_eq_zero_iff]

theorem sizesText_tally :
    sizesText o p.tally.changes = ", ".intercalate (p.changeCounts.map fun (n, c, word) =>
      (countStyle c).paint o.color (toString n) ++ " " ++ word) := by
  rw [sizesText, Plan.changeCounts, List.filter_map, List.map_map]
  rfl

theorem updatesLine_eq_updateTotal : updatesLine o p = updateTotal o p.tally := by
  rw [updatesLine, updateTotal, sizesText_tally]
  simp only [isEmpty_updates_iff]
  rfl

theorem skipsLine_eq_skipTotal : skipsLine o p = skipTotal o p.tally := by
  simp [skipsLine, skipTotal, Plan.tally]

theorem quietLine_eq :
    quietLine o p = securityMark o p ++
      if p.tally.updates = 0 then Style.dimmed.paint o.color "No updates"
      else Style.green.paint o.color (toString p.tally.updates) ++ " to update" := by
  simp only [quietLine, isEmpty_updates_iff]
  rfl

theorem summaryLines_eq_tallyLines :
    summaryLines o p = tallyLines o (securityMark o p) p.tally := by
  rw [summaryLines, updatesLine_eq_updateTotal, skipsLine_eq_skipTotal, quietLine_eq, tallyLines]
  cases o.verbosity <;> rfl

/-- The line of an update that shows a given label. -/
def labelledLine (width : Nat) (c : Change) (d : Dependency) (version : String)
    (releasedAt : Option Instant) : String :=
  "  " ++ pad width d.name ++ " " ++ Style.dimmed.paint o.color (d.version.getD "(none)") ++ " " ++
    Style.dimmed.paint o.color (if o.color then "→" else "->") ++ " " ++
    Style.boldWhite.paint o.color version ++ " " ++ changeLabel o c ++
    Style.dimmed.paint o.color (releasedAt.elim "" fun t => " (" ++ t.renderMinute ++ ")") ++
    Style.dimmed.paint o.color (if d.isProduction then "" else " (dev)")

end TextReport

theorem Change.label_injective : Function.Injective label := by
  intro a b
  cases a <;> cases b <;> decide

/-- Against the placeholder that stands for no version, nothing can be compared. -/
theorem Change.between_none (version : String) : Change.between "(none)" version = .unknown := by
  have h : numberAt (Version.read "(none)") 0 = none := by with_unfolding_all decide
  rw [between, h]

theorem TextReport.decisionLine_eq_labelledLine (o : ReportOptions) (width : Nat)
    {d : PlannedDependency} {dependency : Dependency} {version : String}
    {releasedAt : Option Instant} (hd : d.decision = .update dependency version releasedAt) :
    decisionLine o width d.decision =
      labelledLine o width d.change dependency version releasedAt := by
  have hchange : Change.between (dependency.version.getD "(none)") version = d.change := by
    cases h : dependency.version with
    | none => simp [PlannedDependency.change, hd, h, Change.between_none]
    | some old => simp [PlannedDependency.change, hd, h]
  rw [hd, ← hchange]
  rfl

/-! ### Reports for programs -/

/-- The items of a field that holds a list. There are none where the field is left out. -/
def Json.itemsAt (name : String) (v : Json) : List Json :=
  match v.field? name with
  | some (.array items) => items
  | _ => []

/-- The text that a field holds. -/
def Json.textAt? (name : String) (v : Json) : Option String :=
  match v.field? name with
  | some (.string s) => some s
  | _ => none

namespace DataReport

/-- The labels of the updates. -/
def changeLabels (report : Json) : List (Option String) :=
  (report.itemsAt "updates").map (Json.textAt? "change")

/-- The rows of the package managers. -/
def managerRows (report : Json) : List Json :=
  (report.field? "summary").elim [] (Json.itemsAt "by_package_manager")

/-- A number of the summary. -/
def total? (name : String) (report : Json) : Option Json :=
  (report.field? "summary").bind (Json.field? name)

/-- A report holds the numbers of a summary; verbose ones count by package manager. -/
structure Holds (v : Verbosity) (report : Json) (t : Tally) : Prop where
  updates : total? "updates" report = some (.ofNat t.updates)
  skips : total? "skips" report = some (.ofNat t.skips)
  changes (c : Change) : (changeLabels report).count (some c.label) = t.changes c
  managers : managerRows report = if v = .verbose then t.managers.map managerCount else []

variable (v : Verbosity) (p : Plan)

theorem field?_summary_report : (report v p).field? "summary" = some (summary v p) := by
  simp [report, Json.field?, Json.lookup]

theorem itemsAt_updates_report :
    (report v p).itemsAt "updates" = p.updates.map planned := by
  simp [report, Json.itemsAt, Json.field?, Json.lookup]

theorem textAt?_change_planned {d : PlannedDependency} (hd : d.isUpdate) :
    (planned d).textAt? "change" = some d.change.label := by
  cases h : d.decision with
  | skip => simp [PlannedDependency.isUpdate, Decision.isUpdate, h] at hd
  | update dependency version releasedAt =>
    cases hversion : dependency.version <;>
      simp [planned, h, hversion, Json.textAt?, Json.field?, Json.lookup, presentField]

theorem changeLabels_report :
    changeLabels (report v p) = p.updates.map fun d => some d.change.label := by
  rw [changeLabels, itemsAt_updates_report, List.map_map]
  exact List.map_congr_left fun d hd => textAt?_change_planned (List.mem_filter.mp hd).2

theorem count_changeLabels_report (c : Change) :
    (changeLabels (report v p)).count (some c.label) = p.changeCount c := by
  rw [changeLabels_report, List.count, List.countP_map]
  refine List.countP_congr fun d _ => ?_
  simp [Change.label_injective.eq_iff]

theorem itemsAt_summary :
    (summary v p).itemsAt "by_package_manager" =
      if v = .verbose then p.managerCounts.map managerCount else [] := by
  rw [summary]
  generalize (if v = .verbose then p.managerCounts.map managerCount else []) = rows
  -- Without rows the field is left out, and then it has no items either.
  cases rows <;> simp [Json.itemsAt, Json.field?, Json.lookup, listField]

theorem holds_tally : Holds v (report v p) p.tally where
  updates := by
    rw [total?, field?_summary_report]
    simp [summary, Json.field?, Json.lookup, Plan.tally]
  skips := by
    rw [total?, field?_summary_report]
    simp [summary, Json.field?, Json.lookup, Plan.tally]
  changes := count_changeLabels_report v p
  managers := by rw [managerRows, field?_summary_report, Option.elim, itemsAt_summary, Plan.tally]

end DataReport

end UpdatePlanner
