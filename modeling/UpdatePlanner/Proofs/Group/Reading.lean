import UpdatePlanner.Proofs.Group.Enrolment

/-!
# Groups that are read

A group that is read holds what its settings say and nothing else: its rules denote the settings
again, its patterns are compiled from the rules, and it has no members. So writing its rules and
reading them again gives the group, except that those who have joined it since are gone.

## Main definitions

* `DependencyGroup.IsRead g e`: the group was read, and dependencies may have joined it since
* `DependencyGroup.IsReloadOf g' g`: the group is the other one before anything has joined it

## Main results

* `DependencyGroup.read?_eq_ok_iff`: what a group is read from
* `DependencyGroup.IsRead.enrol`: joining leaves a group that was read one that was read
* `DependencyGroup.IsRead.read?_settings`: a group that was read is read again from its settings
-/

namespace UpdatePlanner

namespace DependencyGroup

/-- A group is read from its rules and both sets of patterns; it has the switch that it is read with,
and no members. -/
theorem read?_eq_ok_iff {name : String} {settings : GroupSettings} {experimental : Bool}
    {g : DependencyGroup} :
    read? name settings experimental = .ok g ↔
      ∃ rules included excluded, GroupRules.read? name settings = .ok rules ∧
        patternSet? rules.patterns = .ok included ∧
        patternSet? rules.excludePatterns = .ok excluded ∧
        ⟨name, rules, included, excluded, experimental, []⟩ = g := by
  unfold read?
  cases GroupRules.read? name settings with
  | error fault => simp
  | ok rules =>
    -- Both sets of patterns have to be read, as a fault in one of them is a fault of the group.
    cases hincluded : patternSet? rules.patterns with
    | error fault => simp [ofRules, hincluded]
    | ok included =>
      cases hexcluded : patternSet? rules.excludePatterns with
      | error fault => simp [ofRules, hincluded, hexcluded]
      | ok excluded => simp [ofRules, hincluded, hexcluded]

theorem members_of_read? {name : String} {settings : GroupSettings} {experimental : Bool}
    {g : DependencyGroup} (h : read? name settings experimental = .ok g) : g.members = [] := by
  obtain ⟨rules, included, excluded, -, -, -, rfl⟩ := read?_eq_ok_iff.mp h
  rfl

theorem name_of_read? {name : String} {settings : GroupSettings} {experimental : Bool}
    {g : DependencyGroup} (h : read? name settings experimental = .ok g) : g.name = name := by
  obtain ⟨rules, included, excluded, -, -, -, rfl⟩ := read?_eq_ok_iff.mp h
  rfl

theorem settings_of_read? {name : String} {settings : GroupSettings} {experimental : Bool}
    {g : DependencyGroup} (h : read? name settings experimental = .ok g) :
    g.rules.settings = settings := by
  obtain ⟨rules, included, excluded, hrules, -, -, rfl⟩ := read?_eq_ok_iff.mp h
  exact GroupRules.settings_of_read? hrules

/-- Some settings denote the group as it was before anything had joined it. -/
def IsRead (g : DependencyGroup) (experimental : Bool) : Prop :=
  ∃ settings, read? g.name settings experimental = .ok (g.withMembers [])

section IsRead

variable {g : DependencyGroup} {experimental : Bool}

theorem isRead_of_read? {name : String} {settings : GroupSettings}
    (h : read? name settings experimental = .ok g) : g.IsRead experimental := by
  obtain ⟨rules, included, excluded, hrules, hincluded, hexcluded, rfl⟩ := read?_eq_ok_iff.mp h
  exact ⟨settings, h⟩

theorem IsRead.enrol (h : g.IsRead experimental) (ds : List Dependency) :
    (Assignment.enrol ds g).IsRead experimental := by
  obtain ⟨settings, hread⟩ := h
  obtain ⟨members, henrol⟩ := Assignment.exists_enrol_eq ds g
  rw [henrol]
  exact ⟨settings, hread⟩

/-- **A group that was read is read again from its settings**, without its members. -/
theorem IsRead.read?_settings (h : g.IsRead experimental) :
    read? g.name g.rules.settings experimental = .ok (g.withMembers []) := by
  obtain ⟨settings, hread⟩ := h
  have hsettings : (g.withMembers []).rules.settings = settings := settings_of_read? hread
  rw [← hsettings] at hread
  exact hread

end IsRead

/-- The group is another one as it was before anything had joined it. It has the same rules, and so
the same dependencies belong to it as did then, and its ceiling rules out the same. -/
structure IsReloadOf (g' g : DependencyGroup) : Prop where
  eq_withMembers : g' = g.withMembers []
  rules : g'.rules = g.rules
  contains : ∀ d, g'.contains d = (g.withMembers []).contains d
  ignored : ∀ d, g'.ignored d = g.ignored d
  targetsHighest : g'.targetsHighest = g.targetsHighest

theorem isReloadOf_withMembers (g : DependencyGroup) : (g.withMembers []).IsReloadOf g :=
  ⟨rfl, rfl, fun _ => rfl, fun _ => rfl, rfl⟩

end DependencyGroup

end UpdatePlanner
