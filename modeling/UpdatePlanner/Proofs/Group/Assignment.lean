import UpdatePlanner.Proofs.Data.Occurrences
import UpdatePlanner.Proofs.Group.Enrolment

/-!
# Assignment follows the rules

Whether a group contains a dependency hangs on the members that it has gained so far, which again
hang on what it contained before. For groups that start empty this comes down to their rules: the
members of a group are the dependencies that it admits, the first of each name, and set aside is
what no group admits under its name up to there. Assignment happens once: a later call fails and
leaves everything as it is.

## Main definitions

* `firstOfEachName ds`, `leftOver groups ds`: what joins a group, and what is set aside, by the rules
* `Assignment.assignInPlace`: assignment as a call that changes the assignment it is made on

## Main results

* `Assignment.enrol_eq`: the members of a group after assignment
* `Assignment.ungrouped_foldl_place`: what is set aside
* `Assignment.run_assignInPlace`: the call changes what it is made on, or fails and does not
* `Assignment.assign_start_by_rules`: what assignment makes of groups without members
-/

namespace UpdatePlanner

/-! ## The rules without their history -/

/-- The dependencies without those of whose name there is an earlier one. -/
def firstOfEachName (ds : List Dependency) : List Dependency :=
  filterWithEarlier (fun earlier d => !earlier.any fun e => e.name == d.name) ds

theorem firstOfEachName_concat (ds : List Dependency) (d : Dependency) :
    firstOfEachName (ds ++ [d]) =
      if ds.any fun e => e.name == d.name then firstOfEachName ds
      else firstOfEachName ds ++ [d] := by
  rw [firstOfEachName, filterWithEarlier_concat]
  cases ds.any fun e => e.name == d.name with
  | false => rfl
  | true => exact List.append_nil _

/-- The dependencies that no group admits under their name up to their own place. -/
def leftOver (groups : List DependencyGroup) (ds : List Dependency) : List Dependency :=
  filterWithEarlier (fun earlier d => !groups.any fun g => g.admitsNamed (earlier ++ [d]) d.name) ds

namespace Assignment

/-! ## What assignment makes of the groups -/

/-- **The members of a group after assignment** are the dependencies that its rules admit, of each
name the first one. -/
theorem enrol_eq {g : DependencyGroup} (hempty : g.members = []) (ds : List Dependency) :
    enrol ds g = g.withMembers (firstOfEachName (ds.filter g.admits)) := by
  -- By induction from the last dependency on: it joins unless one of its name has joined.
  induction ds using List.reverseRecOn with
  | nil =>
    have hnone : enrol [] g = g.withMembers g.members := rfl
    rw [hnone, hempty]
    rfl
  | append_singleton ds d ih =>
    have hmember := hasMember_enrol hempty ds d.name
    have hcontains := contains_enrol hempty ds d
    -- To have met the name among what is admitted is to admit one under it.
    have hnamed : ((ds.filter g.admits).any fun e => e.name == d.name) =
        g.admitsNamed ds d.name := by
      simp only [List.any_filter, Bool.and_comm, DependencyGroup.admitsNamed]
    rw [DependencyGroup.admitsNamed_concat, beq_self_eq_true, Bool.true_and] at hcontains
    rw [enrol_concat, join, hcontains, hmember, List.filter_append]
    by_cases hadmits : g.admits d = true
    · rw [List.filter_cons_of_pos hadmits, List.filter_nil, firstOfEachName_concat, hnamed]
      cases g.admitsNamed ds d.name with
      | true => simpa using ih
      | false =>
        rw [ih]
        simp [hadmits, DependencyGroup.addMember, DependencyGroup.withMembers]
    · -- What is not admitted may belong to the group by its name, but then it does not join.
      rw [List.filter_cons_of_neg hadmits, List.filter_nil, List.append_nil, ← ih]
      cases g.admitsNamed ds d.name <;> simp [hadmits]

/-- A step of the assignment: what no group contains is set aside. -/
theorem ungrouped_place (a : Assignment) (d : Dependency) :
    (a.place d).ungrouped =
      a.ungrouped ++ (if !a.groups.any fun g => g.contains d then [d] else []) := by
  unfold place
  cases a.groups.any fun g => g.contains d with
  | true => exact (List.append_nil _).symm
  | false => rfl

section Memberless

variable {groups : List DependencyGroup} (hempty : ∀ g ∈ groups, g.members = [])
include hempty

/-- **What is set aside** by a run of the assignment. -/
theorem ungrouped_foldl_place (ds : List Dependency) :
    (ds.foldl place (start groups)).ungrouped = leftOver groups ds := by
  induction ds using List.reverseRecOn with
  | nil => rfl
  | append_singleton ds d ih =>
    -- At its turn a group contains the dependency if it admits one of the name up to there.
    have hcontains : ((ds.foldl place (start groups)).groups.any fun g => g.contains d) =
        groups.any fun g => g.admitsNamed (ds ++ [d]) d.name := by
      rw [groups_foldl_place, List.any_map, Bool.eq_iff_iff, List.any_eq_true, List.any_eq_true]
      refine exists_congr fun g => and_congr_right fun hg => ?_
      rw [Function.comp_apply, contains_enrol (hempty g hg)]
    rw [List.foldl_append, List.foldl_cons, List.foldl_nil, ungrouped_place, ih, hcontains,
      leftOver, leftOver, filterWithEarlier_concat]

theorem groups_finished_eq (ds : List Dependency) :
    (finished groups ds).groups =
      groups.map fun g => g.withMembers (firstOfEachName (ds.filter g.admits)) := by
  rw [groups_finished]
  exact List.map_congr_left fun g hg => enrol_eq (hempty g hg) ds

/-- After assignment, a group has a member of a name exactly if it admits a dependency of it. -/
theorem hasMember_of_mem_finished {ds : List Dependency} {g : DependencyGroup}
    (hg : g ∈ (finished groups ds).groups) (name : String) :
    g.hasMember name = g.admitsNamed ds name := by
  rw [groups_finished] at hg
  obtain ⟨g₀, hg₀, rfl⟩ := List.mem_map.mp hg
  obtain ⟨members, henrol⟩ := exists_enrol_eq ds g₀
  rw [hasMember_enrol (hempty g₀ hg₀), henrol]
  rfl

/-- After assignment, the dependencies that belong to a group are in it by their names. -/
theorem contains_of_mem_finished {ds : List Dependency} {g : DependencyGroup}
    (hg : g ∈ (finished groups ds).groups) {d : Dependency} (hd : d ∈ ds) :
    g.contains d = g.hasMember d.name := by
  rw [groups_finished] at hg
  obtain ⟨g₀, hg₀, rfl⟩ := List.mem_map.mp hg
  rw [contains_enrol (hempty g₀ hg₀), DependencyGroup.admitsNamed_concat_of_mem hd,
    hasMember_enrol (hempty g₀ hg₀)]

end Memberless

/-! ## Calls -/

/-- The dependencies are placed one after another. -/
def placeInTurn (ds : List Dependency) : ExceptT PolicyFailure (StateM Assignment) Unit :=
  forM ds fun d => modify fun a => a.place d

/-- Assignment as a call that changes the assignment it is made on. -/
def assignInPlace (ds : List Dependency) : ExceptT PolicyFailure (StateM Assignment) Unit := do
  if (← get).assigned then
    throw .alreadyAssigned
  placeInTurn ds
  modify fun a => { a with assigned := true }

/-- What a call has changed before it fails stays changed. -/
theorem run_bind {ε σ α β : Type} (x : ExceptT ε (StateM σ) α) (f : α → ExceptT ε (StateM σ) β)
    (s : σ) :
    (x >>= f).run.run s =
      match x.run.run s with
      | (.ok v, s') => (f v).run.run s'
      | (.error e, s') => (.error e, s') := by
  have hbind : (x >>= f).run.run s =
      match x.run.run s with
      | (r, s') => ExceptT.bindCont f r s' := rfl
  rw [hbind]
  rcases x.run.run s with ⟨e | v, s'⟩
  · rfl
  · rfl

theorem run_placeInTurn (ds : List Dependency) (a : Assignment) :
    (placeInTurn ds).run.run a = (.ok (), ds.foldl place a) := by
  induction ds generalizing a with
  | nil => rfl
  | cons d ds ih =>
    rw [placeInTurn, List.forM_cons, List.foldl_cons, ← ih]
    rfl

/-- **A call changes the assignment it is made on, or fails and leaves it as it is.** -/
theorem run_assignInPlace (ds : List Dependency) (a : Assignment) :
    (assignInPlace ds).run.run a =
      match a.assign ds with
      | .ok a' => (.ok (), a')
      | .error cause => (.error cause, a) := by
  obtain ⟨groups, ungrouped, assigned⟩ := a
  cases assigned with
  | true => rfl
  | false =>
    -- The first call passes the check, so what is left of it is the placements.
    have hpassed : (assignInPlace ds).run.run ⟨groups, ungrouped, false⟩ =
        (placeInTurn ds >>= fun _ => modify fun a => { a with assigned := true }).run.run
          ⟨groups, ungrouped, false⟩ := rfl
    rw [hpassed, run_bind, run_placeInTurn]
    rfl

/-! ## Assignment by the rules -/

/-- **Assignment follows the rules.** Of groups without members it makes groups whose members are
what they admit, the first of each name, and sets aside what no group admits under its name up to
its own place. The dependencies that belong to a group then are in it by their names, and these are
the names under which it admits one of them. Every later call fails and changes nothing. -/
theorem assign_start_by_rules {groups : List DependencyGroup}
    (hempty : ∀ g ∈ groups, g.members = []) (ds : List Dependency) :
    ∃ a, (start groups).assign ds = .ok a ∧
      a.groups = groups.map (fun g => g.withMembers (firstOfEachName (ds.filter g.admits))) ∧
      a.ungrouped = leftOver groups ds ∧
      (∀ d ∈ ds, (∀ g ∈ a.groups, g.contains d = true ↔ g.hasMember d.name = true) ∧
        a.groupsOf d = a.groups.filter fun g => g.admitsNamed ds d.name) ∧
      ∀ later, a.assign later = .error .alreadyAssigned ∧
        (assignInPlace later).run.run a = (.error .alreadyAssigned, a) := by
  refine ⟨finished groups ds, assign_start groups ds, groups_finished_eq hempty ds,
    ungrouped_foldl_place hempty ds, ?_, ?_⟩
  · intro d hd
    constructor
    · intro g hg
      rw [contains_of_mem_finished hempty hg hd]
    · apply List.filter_congr
      intro g hg
      exact hasMember_of_mem_finished hempty hg d.name
  · intro later
    have hfails : (finished groups ds).assign later = .error .alreadyAssigned := rfl
    refine ⟨hfails, ?_⟩
    rw [run_assignInPlace, hfails]

/-- A group of what is needed in development alone. -/
def developmentGroup : DependencyGroup :=
  ⟨"tools", ⟨none, none, some .development, none⟩, .empty, .empty, false, []⟩

/-- A dependency of two manifests: production lists it first, and the tests list it again. -/
def sharedDependencies : List Dependency :=
  [⟨"rake", some "13.0", .bundler, ["default"]⟩, ⟨"rspec", some "3.12", .bundler, ["test"]⟩,
    ⟨"rake", some "13.0", .bundler, ["test"]⟩, ⟨"rspec", some "3.13", .bundler, ["test"]⟩]

/-- The first `rake` is set aside, the second one joins the group, and so does one `rspec`. -/
theorem assign_start_by_rules_developmentGroup :
    (∀ g ∈ [developmentGroup], g.members = []) ∧
      ∃ a, (start [developmentGroup]).assign sharedDependencies = .ok a ∧
        a.groups = [developmentGroup.withMembers [⟨"rspec", some "3.12", .bundler, ["test"]⟩,
          ⟨"rake", some "13.0", .bundler, ["test"]⟩]] ∧
        a.ungrouped = [⟨"rake", some "13.0", .bundler, ["default"]⟩] ∧
        (∀ d ∈ sharedDependencies,
          (∀ g ∈ a.groups, g.contains d = true ↔ g.hasMember d.name = true) ∧
            a.groupsOf d = a.groups.filter fun g => g.admitsNamed sharedDependencies d.name) ∧
        ∀ later, a.assign later = .error .alreadyAssigned ∧
          (assignInPlace later).run.run a = (.error .alreadyAssigned, a) := by
  have hempty : ∀ g ∈ [developmentGroup], g.members = [] := by decide
  obtain ⟨a, hassign, hgroups, hungrouped, hrest⟩ :=
    assign_start_by_rules hempty sharedDependencies
  have hmembers : firstOfEachName (sharedDependencies.filter developmentGroup.admits) =
      [⟨"rspec", some "3.12", .bundler, ["test"]⟩, ⟨"rake", some "13.0", .bundler, ["test"]⟩] := by
    decide
  have hleft : leftOver [developmentGroup] sharedDependencies =
      [⟨"rake", some "13.0", .bundler, ["default"]⟩] := by decide
  refine ⟨hempty, a, hassign, ?_, hungrouped.trans hleft, hrest⟩
  rw [hgroups, List.map_singleton, hmembers]

end Assignment

end UpdatePlanner
