import UpdatePlanner.Proofs.Ignore.Reading
import UpdatePlanner.Proofs.Pattern.Nesting
import UpdatePlanner.Proofs.Plan.Checks
import UpdatePlanner.Proofs.Plan.Run

/-!
# Faults that end a run, and faults that do not

A run is ended by a fault in its conditions or groups, and by nothing else. The conditions are
checked first and then one group after another: its ceiling, its patterns and its exclusions. A
range that cannot be read ends nothing: each dependency that it is ignored for is skipped, and is
in the plan like all others.

The patterns of a list are read one by one before names can be searched for any of them. So a text
that is no pattern is reported before a pattern that goes too deep, even if it stands behind that in
its list. What a condition whose pattern goes too deep leads to is left open.

## Main definitions

* `Job.checks`: what is checked of a job, in this order
* `Job.HasFault`: a condition, a ceiling or a pattern of a group is faulty
* `Job.FaultsApart job options`: faults that end a run are kept apart from those of dependencies

## Main results

* `Job.makes_plan?`: a run makes the checks of its job
* `Job.faultsApart`: a run keeps both kinds of faults apart
-/

namespace UpdatePlanner

open Pattern

/-! ## Patterns -/

namespace PatternSet

variable {texts : List String}

theorem makes_readAll? : Makes (texts.map .pattern) (readAll? texts) := by
  rw [List.map_eq_flatMap]
  refine Makes.mapM fun text _ => ?_
  cases hread : Pattern.read? text with
  | error fault => exact Makes.error_of_reports (.pattern hread)
  | ok tokens =>
    refine Makes.ok_of_passes (fun he => ?_) _
    obtain ⟨fault, hfault⟩ := Check.exists_reports_pattern_iff.mp he
    cases hread.symm.trans hfault

theorem mem_readAll?_iff {patterns : List (String × List Token)}
    (h : readAll? texts = .ok patterns) {tokens : List Token} :
    tokens ∈ patterns.map Prod.snd ↔ ∃ text ∈ texts, Pattern.read? text = .ok tokens := by
  have hmem {p : String × List Token} : p ∈ patterns ↔
      ∃ text ∈ texts, Pattern.read? text = .ok p.2 ∧ text = p.1 := by
    rw [mem_iff_of_mapM h]
    refine exists_congr fun text => and_congr_right fun _ => ?_
    cases Pattern.read? text with
    | error fault => simp
    | ok tokens => simp [Prod.ext_iff, and_comm]
  simp only [List.mem_map, hmem]
  constructor
  · rintro ⟨p, ⟨text, htext, hread, -⟩, rfl⟩
    exact ⟨text, htext, hread⟩
  · rintro ⟨text, htext, hread⟩
    exact ⟨(text, tokens), ⟨text, htext, hread, rfl⟩, rfl⟩

/-- **All patterns of a list are read before names can be searched for any of them.** -/
theorem makes_read? : Makes (texts.map .pattern ++ [.search texts]) (read? texts) := by
  have hbind : read? texts = readAll? texts >>= fun patterns =>
      (searchFault? (patterns.map Prod.snd)).elim
        (.ok ⟨patterns.map fun p => ⟨⟨p.1, shape p.2⟩, .ofTokens p.2⟩⟩) .error := by
    unfold read?
    cases readAll? texts with
    | error fault => rfl
    | ok patterns =>
      simp only [bind, Except.bind]
      cases searchFault? (patterns.map Prod.snd) <;> rfl
  rw [hbind]
  refine makes_readAll?.bind fun patterns hpatterns => ?_
  cases hfault : searchFault? (patterns.map Prod.snd) with
  | some fault =>
    obtain ⟨tokens, hmem, hdeep, shown, number, hshown, rfl⟩ :=
      exists_of_searchFault?_eq_some hfault
    obtain ⟨text, htext, hread⟩ := (mem_readAll?_iff hpatterns).mp hmem
    exact Makes.error_of_reports
      (.search htext hread (of_decide_eq_true hdeep) hshown number)
  | none =>
    refine Makes.ok_of_passes (fun he => ?_) _
    obtain ⟨text, htext, tokens, hread, hdeep⟩ := Check.exists_reports_search_iff.mp he
    have hmem := (mem_readAll?_iff hpatterns).mpr ⟨text, htext, hread⟩
    exact of_decide_eq_false (isTooDeep_eq_false_of_searchFault?_eq_none hfault hmem) hdeep

end PatternSet

/-! ## Groups -/

/-- What is checked of a list of patterns, if there is one. -/
def patternChecks : Option (List String) → List Check
  | none => []
  | some texts => texts.map .pattern ++ [.search texts]

/-- What is checked of a group: its ceiling, its patterns and then its exclusions. -/
def GroupDefinition.checks (g : GroupDefinition) : List Check :=
  .ceiling g.name g.settings.highestAllowed ::
    (patternChecks g.settings.patterns ++ patternChecks g.settings.excludePatterns)

theorem Ceiling.ofName?_eq_none_iff {name : String} :
    ofName? name = none ↔ name ∉ ["major", "minor", "patch"] := by
  simp [ofName?, Ceiling.name, eq_comm (b := name)]

theorem GroupRules.makes_read? (group : String) (s : GroupSettings) :
    Makes [.ceiling group s.highestAllowed] (read? group s) := by
  unfold read?
  cases s.highestAllowed with
  | none =>
    refine Makes.ok_of_passes (fun he => ?_) _
    obtain ⟨v, hv, -⟩ := Check.exists_reports_ceiling_iff.mp he
    cases hv
  | some value =>
    cases hname : Ceiling.ofName? value with
    | none =>
      simp only [hname]
      exact Makes.error_of_reports (.ceiling (Ceiling.ofName?_eq_none_iff.mp hname))
    | some c =>
      simp only [hname]
      refine Makes.ok_of_passes (fun he => ?_) _
      obtain ⟨v, hv, hunknown⟩ := Check.exists_reports_ceiling_iff.mp he
      obtain rfl := Option.some.inj hv
      cases hname.symm.trans (Ceiling.ofName?_eq_none_iff.mpr hunknown)

namespace DependencyGroup

theorem makes_patternSet? (texts : Option (List String)) :
    Makes (patternChecks texts) (patternSet? texts) := by
  cases texts with
  | none => exact Makes.ok PatternSet.empty
  | some texts => exact PatternSet.makes_read?

theorem makes_ofRules {name : String} {rules : GroupRules} {experimental : Bool} :
    Makes (patternChecks rules.patterns ++ patternChecks rules.excludePatterns)
      (ofRules name rules experimental) := by
  have hbind : ofRules name rules experimental =
      patternSet? rules.patterns >>= fun included =>
        (patternSet? rules.excludePatterns).map fun excluded =>
          ⟨name, rules, included, excluded, experimental, []⟩ := by
    unfold ofRules
    cases patternSet? rules.patterns with
    | error fault => rfl
    | ok included => cases patternSet? rules.excludePatterns <;> rfl
  rw [hbind]
  exact (makes_patternSet? _).bind fun _ _ => (makes_patternSet? _).map _

/-- **A group is checked as it is read**: its ceiling before its patterns, and those before its
exclusions. -/
theorem makes_read? (g : GroupDefinition) (experimental : Bool) :
    Makes g.checks (read? g.name g.settings experimental) := by
  have hbind : read? g.name g.settings experimental =
      GroupRules.read? g.name g.settings >>= fun rules => ofRules g.name rules experimental := by
    unfold read?
    cases GroupRules.read? g.name g.settings <;> rfl
  rw [hbind]
  refine (GroupRules.makes_read? ..).bind fun rules hrules => ?_
  -- The rules have the patterns of the settings.
  rw [← GroupRules.settings_of_read? hrules]
  exact makes_ofRules

end DependencyGroup

/-! ## Conditions -/

namespace ConditionDefinition

theorem makes_condition? {c : ConditionDefinition} (h : ¬ IsTooDeep c.pattern) :
    Makes [.pattern c.pattern] c.condition? := by
  refine Makes.map ?_ c.withPattern
  unfold NamePattern.read?
  cases hread : Pattern.read? c.pattern with
  | error fault => exact Makes.error_of_reports (.pattern hread)
  | ok tokens =>
    have hdepth : nesting tokens ≤ nestingLimit :=
      Nat.not_lt.mp fun hdeep => h ⟨tokens, hread, hdeep⟩
    simp only [hdepth, if_true]
    refine Makes.ok_of_passes (fun he => ?_) _
    obtain ⟨fault, hfault⟩ := Check.exists_reports_pattern_iff.mp he
    cases hread.symm.trans hfault

/-- Conditions are checked as they are read, as far as they are read. -/
theorem makes_conditions? {cs : List ConditionDefinition}
    (h : ∀ c ∈ cs.takeWhile fun c => ¬ IsMalformed c.pattern, ¬ IsTooDeep c.pattern) :
    Makes (cs.map fun c => .pattern c.pattern) (cs.mapM condition?) := by
  induction cs with
  | nil => exact Makes.ok []
  | cons c cs ih =>
    have hc : ¬ IsTooDeep c.pattern := by
      by_cases hm : IsMalformed c.pattern
      · exact hm.not_isTooDeep
      · exact h c (by simp [hm])
    rw [List.mapM_cons, List.map_cons, ← List.singleton_append]
    refine (makes_condition? hc).bind fun condition hread => ?_
    -- A condition that was read is not malformed, so the ones behind it are read too.
    have hm : ¬ IsMalformed c.pattern := fun hm =>
      (makes_condition? hc).exists_error_iff.not.mp (by simp [hread])
        ⟨_, List.mem_singleton_self _, Check.exists_reports_pattern_iff.mpr hm⟩
    refine (ih fun d hd => h d ?_).map _
    rw [List.takeWhile_cons_of_pos (by simpa using hm)]
    exact List.mem_cons_of_mem c hd

end ConditionDefinition

/-! ## Ranges -/

/-- A requirement is refused for nothing but its own text. -/
theorem Requirement.exists_of_read?_error {text : String} {e : PolicyFailure}
    (h : Requirement.read? text = .error e) : ∃ reason, e = .invalidRequirement text reason := by
  unfold Requirement.read? at h
  split at h
  · cases h
  · split at h
    · cases h
    · exact ⟨_, (Except.error.inj h).symm⟩

/-! ## Runs -/

namespace Job

variable {job : Job} {options : PlanOptions}

/-- What is checked of a job: all its conditions, and then one group after another. -/
def checks (job : Job) : List Check :=
  (job.conditions.map fun c => .pattern c.pattern) ++ job.groups.flatMap GroupDefinition.checks

/-- Some condition has a pattern that is none, or some group has an unknown ceiling or a pattern or
exclusion that is none or goes too deep. -/
def HasFault (job : Job) : Prop :=
  (∃ c ∈ job.conditions, IsMalformed c.pattern) ∨
    ∃ g ∈ job.groups,
      (∃ value, g.settings.highestAllowed = some value ∧ value ∉ ["major", "minor", "patch"]) ∨
        ∃ texts, (g.settings.patterns = some texts ∨ g.settings.excludePatterns = some texts) ∧
          ∃ text ∈ texts, IsMalformed text ∨ IsTooDeep text

theorem exists_reports_patternChecks_iff {texts? : Option (List String)} :
    (∃ c ∈ patternChecks texts?, ∃ e, c.Reports e) ↔
      ∃ texts, texts? = some texts ∧ ∃ text ∈ texts, IsMalformed text ∨ IsTooDeep text := by
  cases texts? with
  | none => simp [patternChecks]
  | some texts =>
    simp only [patternChecks, List.mem_append, List.mem_map, List.mem_singleton, or_and_right,
      exists_or, exists_exists_and_eq_and, exists_eq_left, Check.exists_reports_pattern_iff,
      Check.exists_reports_search_iff, Option.some.injEq, exists_eq_left', and_or_left]

theorem exists_reports_group_iff {g : GroupDefinition} :
    (∃ c ∈ g.checks, ∃ e, c.Reports e) ↔
      (∃ value, g.settings.highestAllowed = some value ∧ value ∉ ["major", "minor", "patch"]) ∨
        ∃ texts, (g.settings.patterns = some texts ∨ g.settings.excludePatterns = some texts) ∧
          ∃ text ∈ texts, IsMalformed text ∨ IsTooDeep text := by
  simp only [GroupDefinition.checks, List.exists_mem_cons_iff, List.mem_append, or_and_right,
    exists_or, Check.exists_reports_ceiling_iff, exists_reports_patternChecks_iff]

theorem hasFault_iff : job.HasFault ↔ ∃ c ∈ job.checks, ∃ e, c.Reports e := by
  have hchecks : (∃ c ∈ job.checks, ∃ e, c.Reports e) ↔
      (∃ c ∈ job.conditions, IsMalformed c.pattern) ∨
        ∃ c ∈ job.groups.flatMap GroupDefinition.checks, ∃ e, c.Reports e := by
    simp only [checks, List.mem_append, List.mem_map, or_and_right, exists_or,
      exists_exists_and_eq_and, Check.exists_reports_pattern_iff]
  have hgroups : (∃ c ∈ job.groups.flatMap GroupDefinition.checks, ∃ e, c.Reports e) ↔
      ∃ g ∈ job.groups, ∃ c ∈ g.checks, ∃ e, c.Reports e := by
    simp only [List.mem_flatMap]
    constructor
    · rintro ⟨c, ⟨g, hg, hc⟩, he⟩
      exact ⟨g, hg, c, hc, he⟩
    · rintro ⟨g, hg, c, hc, he⟩
      exact ⟨c, ⟨g, hg, hc⟩, he⟩
  rw [hchecks, hgroups]
  simp only [exists_reports_group_iff]
  rfl

/-- **A run makes the checks of its job.** -/
theorem makes_plan?
    (h : ∀ c ∈ job.conditions.takeWhile fun c => ¬ IsMalformed c.pattern, ¬ IsTooDeep c.pattern) :
    Makes job.checks (job.plan? options) := by
  have hgroups : Makes (job.groups.flatMap GroupDefinition.checks) job.groups? :=
    Makes.mapM fun g _ => DependencyGroup.makes_read? g job.experimentalRules
  refine (ConditionDefinition.makes_conditions? h).bind fun conditions _ => ?_
  -- Nothing is assigned before, so the assignment has nothing to report.
  exact hgroups.map fun groups =>
    job.planWith options conditions (Assignment.finished groups job.dependencies)

/-- Every failure in a plan is that of a range of its dependency that cannot be read. -/
theorem exists_of_mem_failures {conditions : List IgnoreCondition} {a : Assignment}
    {f : PlanFailure} (hf : f ∈ (job.planWith options conditions a).failures) :
    ∃ p ∈ (job.planWith options conditions a).dependencies, p.name = f.dependency ∧
      ∃ range ∈ p.ignored, ∃ reason, f.cause = .invalidRequirement range reason := by
  rw [failures_planWith_eq] at hf
  obtain ⟨d, hd, hfail⟩ := List.mem_filterMap.mp hf
  rw [failure_planFor] at hfail
  obtain ⟨cause, hcause, rfl⟩ := Option.map_eq_some_iff.mp hfail
  obtain ⟨range, hrange, hread⟩ := exists_mem_of_decide?_error hcause
  have hentry : (job.planFor options conditions a d).1 ∈
      (job.planWith options conditions a).dependencies :=
    List.mem_map_of_mem (List.mem_map_of_mem hd)
  exact ⟨_, hentry, name_planFor .., range, hrange, Requirement.exists_of_read?_error hread⟩

/-- Faults that end a run are kept apart from those of single dependencies. -/
structure FaultsApart (job : Job) (options : PlanOptions) : Prop where
  /-- A run fails exactly if a condition or a group is faulty, whatever its ranges are. -/
  fails_iff : (∃ e, job.plan? options = .error e) ↔ job.HasFault
  /-- It fails with the first fault. -/
  firstReport : ∀ e, job.plan? options = .error e → FirstReport job.checks e
  /-- It never fails for a range, nor for an assignment that was made before. -/
  causes : ∀ e, job.plan? options = .error e →
    e ≠ .alreadyAssigned ∧ ∀ range reason, e ≠ .invalidRequirement range reason
  /-- Otherwise every dependency has its entry, and only ranges that cannot be read are failures. -/
  planned : ¬ job.HasFault → ∃ plan, job.plan? options = .ok plan ∧
    plan.dependencies.map (fun p => p.decision.dependency) = job.dependencies ∧
    ∀ f ∈ plan.failures, ∃ p ∈ plan.dependencies, p.name = f.dependency ∧
      ∃ range ∈ p.ignored, ∃ reason, f.cause = .invalidRequirement range reason

/-- **A run keeps its faults apart** from those of the dependencies, if no condition in front of the
first malformed one has a pattern that goes too deep. -/
theorem faultsApart
    (h : ∀ c ∈ job.conditions.takeWhile fun c => ¬ IsMalformed c.pattern, ¬ IsTooDeep c.pattern) :
    job.FaultsApart options := by
  have hmakes : Makes job.checks (job.plan? options) := makes_plan? h
  have hfails : (∃ e, job.plan? options = .error e) ↔ job.HasFault :=
    hmakes.exists_error_iff.trans hasFault_iff.symm
  refine ⟨hfails, hmakes.firstReport, fun e he => ?_, fun hnone => ?_⟩
  · obtain ⟨before, c, after, -, -, hc⟩ := hmakes.firstReport e he
    cases hc <;> simp [PatternSet.searchFault]
  · cases hplan : job.plan? options with
    | error e => exact absurd (hfails.mp ⟨e, hplan⟩) hnone
    | ok plan =>
      obtain ⟨conditions, groups, -, -, rfl⟩ := plan?_eq_ok_iff.mp hplan
      refine ⟨_, rfl, ?_, fun f hf => exists_of_mem_failures hf⟩
      rw [map_dependencies_planWith]
      simp only [dependency_planFor, List.map_id']

/-- A job with ranges that cannot be read, and with two faults behind each other in its groups. -/
def faultyJob : Job where
  securityOnly := false
  experiments := .none
  groups := [⟨"web", ⟨some ["ra*"], some ["rake"], none, some "minor"⟩⟩,
    ⟨"tools", ⟨some ["r\x7ba,b"], some ["["], none, none⟩⟩]
  conditions := [⟨"ra*", some [">> 1", "=> 2"], none, false⟩]
  entries := [⟨⟨"rack", some "2.0", .bundler, []⟩, [⟨"3.0", none⟩]⟩]

theorem faultsApart_faultyJob :
    faultyJob.FaultsApart ⟨false, none, ⟨0, 0⟩⟩ ∧
      faultyJob.plan? ⟨false, none, ⟨0, 0⟩⟩ =
        .error (.invalidPattern "r\x7ba,b" PatternFault.unclosedChoice.message) :=
  ⟨faultsApart (by with_unfolding_all decide), by with_unfolding_all decide⟩

/-! ### Patterns by themselves -/

/-- The faults of a job if every pattern is judged by itself, in the order of the checks. -/
def faultsOneByOne (fault? : String → Option PolicyFailure) (job : Job) : List PolicyFailure :=
  job.conditions.filterMap (fun c => fault? c.pattern) ++ job.groups.flatMap fun g =>
    (match GroupRules.read? g.name g.settings with
      | .error e => [e]
      | .ok _ => []) ++
    (g.settings.patterns.getD []).filterMap fault? ++
    (g.settings.excludePatterns.getD []).filterMap fault?

/-- A job that has nothing but a group with the given patterns. -/
def patternJob (texts : List String) : Job :=
  { empty with groups := [⟨"web", ⟨some texts, none, none, none⟩⟩] }

theorem plan?_patternJob_eq_error {texts : List String} {e : PolicyFailure}
    (h : PatternSet.read? texts = .error e) : (patternJob texts).plan? options = .error e := by
  have hgroups : (patternJob texts).groups? = .error e := by
    simp only [groups?, patternJob, List.mapM_cons, DependencyGroup.read?, GroupRules.read?,
      GroupRules.withCeiling, DependencyGroup.ofRules, DependencyGroup.patternSet?, h]
    rfl
  rw [plan?, hgroups]
  rfl

theorem faultsOneByOne_patternJob (fault? : String → Option PolicyFailure) (texts : List String) :
    (patternJob texts).faultsOneByOne fault? = texts.filterMap fault? := by
  simp [faultsOneByOne, patternJob, empty, GroupRules.read?]

theorem plan?_patternJob_nestedChoices {n : Nat} (h : nestingLimit ≤ n) :
    (patternJob [nestedChoices n]).plan? options = .error (PatternSet.searchFault "" 0) :=
  plan?_patternJob_eq_error (PatternSet.read?_nestedChoices h)

theorem plan?_patternJob_malformed {n : Nat} {text : String} {fault : PatternFault}
    (h : read? text = .error fault) :
    (patternJob [nestedChoices n, text]).plan? options =
      .error (.invalidPattern text fault.message) := by
  apply plan?_patternJob_eq_error
  simp only [PatternSet.read?, PatternSet.readAll?, List.mapM_cons, read?_nestedChoices, h]
  rfl

/-- The first fault is that of no pattern by itself. A list with a pattern that goes too deep fails
for this pattern, but with a malformed text behind that it fails for the malformed one. -/
theorem first_fault_not_of_single_pattern :
    ¬ ∃ fault? : String → Option PolicyFailure,
      ∀ texts ∈ [[nestedChoices 251], [nestedChoices 251, "["]], ∀ e,
        (patternJob texts).plan? ⟨false, none, ⟨0, 0⟩⟩ = .error e ↔
          ((patternJob texts).faultsOneByOne fault?).head? = some e := by
  rintro ⟨fault?, h⟩
  have hbracket : read? "[" = .error .unclosedClass := by with_unfolding_all decide
  -- What the list with one pattern fails for would have to be the fault of that pattern.
  have hdeep : fault? (nestedChoices 251) = some (PatternSet.searchFault "" 0) := by
    have halone := (h _ List.mem_cons_self _).mp (plan?_patternJob_nestedChoices (by decide))
    rw [faultsOneByOne_patternJob] at halone
    cases hfault : fault? (nestedChoices 251) with
    | none => simp [hfault] at halone
    | some e => simpa [hfault] using halone
  -- In the longer list this pattern comes first as well, but is not what is reported.
  have hboth := (h _ (List.mem_cons_of_mem _ List.mem_cons_self) _).mp
    (plan?_patternJob_malformed hbracket)
  rw [faultsOneByOne_patternJob, List.filterMap_cons_some hdeep, List.head?_cons] at hboth
  exact absurd hboth (by decide)

end Job

end UpdatePlanner
