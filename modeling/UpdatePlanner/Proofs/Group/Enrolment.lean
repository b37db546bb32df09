import Mathlib.Data.List.Induction
import UpdatePlanner.Group.Assignment

/-!
# Groups under assignment

Assigning dependencies adds members to the groups and changes nothing else of them, and each group
fills up by itself. Whether a group contains a dependency hangs on the members that it has by then;
for a group that starts empty these are what its rules admit, so a dependency belongs to it exactly
if the rules admit one of its name up to there.

## Main definitions

* `Assignment.enrol ds g`: a group after all dependencies were offered to it
* `DependencyGroup.admitsNamed g ds name`: the rules admit one of the dependencies under a name

## Main results

* `Assignment.groups_foldl_place`: the groups after assignment, each by itself
* `Assignment.hasMember_enrol`: the names that a group has members of
* `Assignment.contains_enrol`: the dependencies that belong to a group at their turn
-/

namespace UpdatePlanner

namespace DependencyGroup

/-- The group with other members. -/
def withMembers (g : DependencyGroup) (members : List Dependency) : DependencyGroup :=
  { g with members := members }

/-- Whether the rules admit one of the dependencies under a name. -/
def admitsNamed (g : DependencyGroup) (ds : List Dependency) (name : String) : Bool :=
  ds.any fun d => d.name == name && g.admits d

variable {g : DependencyGroup} {ds : List Dependency} {d : Dependency} {name : String}

theorem admitsNamed_eq_true_iff :
    g.admitsNamed ds name = true ↔ ∃ d ∈ ds, d.name = name ∧ g.admits d = true := by
  simp [admitsNamed, List.any_eq_true]

theorem admitsNamed_eq_false_iff :
    g.admitsNamed ds name = false ↔ ∀ d ∈ ds, d.name = name → g.admits d = false := by
  simp [admitsNamed, List.any_eq_false]

theorem admitsNamed_concat :
    g.admitsNamed (ds ++ [d]) name =
      (g.admitsNamed ds name || (d.name == name && g.admits d)) := by
  simp [admitsNamed]

/-- A dependency that was offered before adds nothing when it is offered again. -/
theorem admitsNamed_concat_of_mem (h : d ∈ ds) :
    g.admitsNamed (ds ++ [d]) name = g.admitsNamed ds name := by
  rw [admitsNamed_concat, Bool.or_eq_left_iff_imp]
  intro hd
  obtain ⟨hname, hadmits⟩ := Bool.and_eq_true_iff.mp hd
  exact admitsNamed_eq_true_iff.mpr ⟨d, h, beq_iff_eq.mp hname, hadmits⟩

/-- Of the dependencies only those under the name count. -/
theorem admitsNamed_filter (ds : List Dependency) :
    g.admitsNamed (ds.filter fun d => d.name == name) name = g.admitsNamed ds name := by
  simp only [admitsNamed, List.any_filter, ← Bool.and_assoc, Bool.and_self]

/-- Members are found by their names. -/
theorem hasMember_iff_mem_map : g.hasMember name = true ↔ name ∈ g.members.map Dependency.name := by
  rw [hasMember, List.any_eq_true, List.mem_map]
  simp only [beq_iff_eq]

theorem accepts_eq_false_of_admits (h : g.admits d = true) : g.excluded.accepts d.name = false := by
  simp only [admits, Bool.and_eq_true, Bool.not_eq_true'] at h
  exact h.1.1.1

/-- Exclusion goes by names, so what is admitted is not excluded under its name. -/
theorem accepts_eq_false_of_admitsNamed (h : g.admitsNamed ds name = true) :
    g.excluded.accepts name = false := by
  obtain ⟨d, -, rfl, hadmits⟩ := admitsNamed_eq_true_iff.mp h
  exact accepts_eq_false_of_admits hadmits

end DependencyGroup

namespace Assignment

/-- A group after dependencies were offered to it, one after another. -/
def enrol (ds : List Dependency) (g : DependencyGroup) : DependencyGroup :=
  ds.foldl (fun g d => join d g) g

theorem enrol_concat (ds : List Dependency) (d : Dependency) (g : DependencyGroup) :
    enrol (ds ++ [d]) g = join d (enrol ds g) := by
  rw [enrol, List.foldl_append]
  rfl

/-- A step of the assignment: a dependency is offered to every group. -/
theorem groups_place (a : Assignment) (d : Dependency) :
    (a.place d).groups = a.groups.map (join d) := rfl

/-- A run of the assignment: every group fills up by itself. -/
theorem groups_foldl_place (ds : List Dependency) (a : Assignment) :
    (ds.foldl place a).groups = a.groups.map (enrol ds) := by
  -- By induction on the dependencies left, for every state that the assignment is in.
  induction ds generalizing a with
  | nil => exact (List.map_id _).symm
  | cons d ds ih =>
    rw [List.foldl_cons, ih, groups_place, List.map_map]
    rfl

/-- The groups after everything was assigned to them. -/
def finished (groups : List DependencyGroup) (ds : List Dependency) : Assignment :=
  { ds.foldl place (start groups) with assigned := true }

theorem assign_start (groups : List DependencyGroup) (ds : List Dependency) :
    (start groups).assign ds = .ok (finished groups ds) := rfl

theorem groups_finished (groups : List DependencyGroup) (ds : List Dependency) :
    (finished groups ds).groups = groups.map (enrol ds) :=
  groups_foldl_place ds (start groups)

theorem exists_join_eq (d : Dependency) (g : DependencyGroup) :
    ∃ members, join d g = g.withMembers members := by
  unfold join
  split
  · exact ⟨g.members ++ [d], rfl⟩
  · exact ⟨g.members, rfl⟩

/-- Nothing but the members of a group changes. -/
theorem exists_enrol_eq (ds : List Dependency) (g : DependencyGroup) :
    ∃ members, enrol ds g = g.withMembers members := by
  induction ds generalizing g with
  | nil => exact ⟨g.members, rfl⟩
  | cons d ds ih =>
    obtain ⟨ms, hms⟩ := exists_join_eq d g
    obtain ⟨members, h⟩ := ih (join d g)
    refine ⟨members, ?_⟩
    rw [hms] at h
    exact (congrArg (enrol ds) hms).trans h

/-- What a ceiling rules out does not hang on the members. -/
theorem ignored_enrol (ds : List Dependency) (g : DependencyGroup) (d : Dependency) :
    (enrol ds g).ignored d = g.ignored d := by
  obtain ⟨members, h⟩ := exists_enrol_eq ds g
  rw [h]
  rfl

theorem name_enrol (ds : List Dependency) (g : DependencyGroup) : (enrol ds g).name = g.name := by
  obtain ⟨members, h⟩ := exists_enrol_eq ds g
  rw [h]
  rfl

/-! ## Membership -/

/-- A step of the assignment: a group gains a member of the name of what it contains. -/
theorem hasMember_join (d : Dependency) (g : DependencyGroup) (name : String) :
    (join d g).hasMember name = (g.hasMember name || (g.contains d && d.name == name)) := by
  unfold join
  by_cases hcontains : g.contains d = true
  · by_cases hmember : g.hasMember d.name = true
    · -- One of the name has joined before.
      have habsorbed : (d.name == name) = true → g.hasMember name = true := by
        intro hname
        exact beq_iff_eq.mp hname ▸ hmember
      simpa [hcontains, hmember] using habsorbed
    · rw [if_pos (by simp [hcontains, hmember])]
      simp [hcontains, DependencyGroup.hasMember, DependencyGroup.addMember]
  · simp [hcontains]

section Memberless

variable {g : DependencyGroup}

/-- Where the members are those that the rules admit, a dependency belongs to the group exactly if
the rules admit one of its name up to it. -/
theorem contains_enrol_of_hasMember {ds : List Dependency}
    (h : ∀ name, (enrol ds g).hasMember name = g.admitsNamed ds name) (d : Dependency) :
    (enrol ds g).contains d = g.admitsNamed (ds ++ [d]) d.name := by
  have hmember := h d.name
  -- The rules do not hang on the members.
  obtain ⟨members, henrol⟩ := exists_enrol_eq ds g
  have hadmits : (enrol ds g).admits d = g.admits d := by rw [henrol]; rfl
  have hexcluded : (enrol ds g).excluded = g.excluded := by rw [henrol]; rfl
  rw [DependencyGroup.contains, hmember, hadmits, hexcluded,
    DependencyGroup.admitsNamed_concat, beq_self_eq_true, Bool.true_and, Bool.and_eq_right_iff_imp,
    Bool.or_eq_true, Bool.not_eq_true']
  rintro (hnamed | hd)
  · exact DependencyGroup.accepts_eq_false_of_admitsNamed hnamed
  · exact DependencyGroup.accepts_eq_false_of_admits hd

variable (hempty : g.members = [])
include hempty

/-- **The names that a group has members of** are those under which its rules admit one of the
dependencies. -/
theorem hasMember_enrol (ds : List Dependency) (name : String) :
    (enrol ds g).hasMember name = g.admitsNamed ds name := by
  -- By induction from the last dependency on, which meets the members that the others have left.
  induction ds using List.reverseRecOn generalizing name with
  | nil =>
    have hnone : enrol [] g = g := rfl
    simp [hnone, DependencyGroup.hasMember, DependencyGroup.admitsNamed, hempty]
  | append_singleton ds d ih =>
    rw [enrol_concat, hasMember_join, contains_enrol_of_hasMember ih, ih,
      DependencyGroup.admitsNamed_concat, DependencyGroup.admitsNamed_concat]
    by_cases hname : d.name = name
    · subst hname
      simp
    · -- Under another name the step changes nothing on either side.
      have hne : (d.name == name) = false := beq_false_of_ne hname
      simp [hne]

/-- **The dependencies that belong to a group at their turn** are those of whose name the rules
admit one up to there. -/
theorem contains_enrol (ds : List Dependency) (d : Dependency) :
    (enrol ds g).contains d = g.admitsNamed (ds ++ [d]) d.name :=
  contains_enrol_of_hasMember (hasMember_enrol hempty ds) d

end Memberless

end Assignment

end UpdatePlanner
