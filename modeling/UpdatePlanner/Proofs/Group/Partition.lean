import Mathlib.Data.List.Nodup
import UpdatePlanner.Proofs.Group.Assignment

/-!
# Grouped names and names set aside

What was assigned is known by its name afterwards: a group lists the names of its members, and the
names of what was set aside stand beside the groups. No dependency gets lost in this, but a name
can end up on both sides. Its first dependency decides whether it is set aside, while each of them
can bring it into a group, so this happens exactly if no group admits the first one and some group
admits a later one.

## Main definitions

* `firstNamed? ds name`: the first dependency of a name
* `Assignment.isGrouped a name`, `Assignment.isSetAside a name`: the two sides
* `JoinsLate groups ds name`: a name whose first dependency is refused and a later one is admitted

## Main results

* `Assignment.isGrouped_finished_iff`, `Assignment.isSetAside_finished_iff`: the two sides by the
  rules
* `Assignment.isGrouped_or_isSetAside`: every dependency is on one of them
* `not_joinsLate_of_nodup`: a name that comes up once is not on both
* `Assignment.assign_start_covers`: the names of an assignment are on one side, and which are on
  both
-/

namespace UpdatePlanner

/-! ## The first of a name -/

/-- The first dependency of a name. -/
def firstNamed? (ds : List Dependency) (name : String) : Option Dependency :=
  ds.find? fun d => d.name == name

section FirstNamed

variable {ds : List Dependency} {name : String} {first : Dependency}

theorem mem_of_firstNamed? (h : firstNamed? ds name = some first) : first ∈ ds :=
  List.mem_of_find?_eq_some h

theorem name_of_firstNamed? (h : firstNamed? ds name = some first) : first.name = name := by
  have hname := List.find?_some h
  exact beq_iff_eq.mp hname

theorem exists_firstNamed? {d : Dependency} (hd : d ∈ ds) :
    ∃ first, firstNamed? ds d.name = some first := by
  rw [← Option.isSome_iff_exists, firstNamed?, List.find?_isSome]
  exact ⟨d, hd, beq_self_eq_true d.name⟩

/-- The first of a name in the first part of a list is the first in the list. -/
theorem firstNamed?_append_left (h : firstNamed? ds name = some first) (more : List Dependency) :
    firstNamed? (ds ++ more) name = some first := by
  rw [firstNamed?, List.find?_append]
  rw [firstNamed?] at h
  rw [h, Option.some_or]

end FirstNamed

/-! ## Names that join late -/

/-- A name under which no group admits the first dependency and some group admits another one. -/
structure JoinsLate (groups : List DependencyGroup) (ds : List Dependency) (name : String) :
    Prop where
  first_refused : ∃ first, firstNamed? ds name = some first ∧ ∀ g ∈ groups, g.admits first = false
  some_admitted : ∃ g ∈ groups, g.admitsNamed ds name = true

theorem joinsLate_iff {groups : List DependencyGroup} {ds : List Dependency} {name : String} :
    JoinsLate groups ds name ↔
      ((firstNamed? ds name).any fun first => !groups.any fun g => g.admits first) = true ∧
        (groups.any fun g => g.admitsNamed ds name) = true := by
  simp only [Option.any_eq_true, Bool.not_eq_true', List.any_eq_false, List.any_eq_true,
    Bool.not_eq_true]
  constructor
  · intro h
    exact ⟨h.first_refused, h.some_admitted⟩
  · rintro ⟨hrefused, hadmitted⟩
    exact ⟨hrefused, hadmitted⟩

instance (groups : List DependencyGroup) (ds : List Dependency) (name : String) :
    Decidable (JoinsLate groups ds name) :=
  decidable_of_iff' _ joinsLate_iff

/-- Where names come up once, no group has another dependency to admit. -/
theorem not_joinsLate_of_nodup {groups : List DependencyGroup} {ds : List Dependency}
    (hnodup : (ds.map Dependency.name).Nodup) (name : String) : ¬JoinsLate groups ds name := by
  rintro ⟨⟨first, hfirst, hrefused⟩, g, hg, hnamed⟩
  obtain ⟨d, hd, hname, hadmits⟩ := DependencyGroup.admitsNamed_eq_true_iff.mp hnamed
  obtain rfl : first = d := List.inj_on_of_nodup_map hnodup (mem_of_firstNamed? hfirst) hd
    ((name_of_firstNamed? hfirst).trans hname.symm)
  rw [hrefused g hg] at hadmits
  cases hadmits

namespace Assignment

/-- Whether some group has a member of a name. -/
def isGrouped (a : Assignment) (name : String) : Bool :=
  a.groups.any fun g => g.hasMember name

/-- Whether a dependency of a name was set aside. -/
def isSetAside (a : Assignment) (name : String) : Bool :=
  a.ungrouped.any fun d => d.name == name

/-! ## The two sides by the rules -/

variable {groups : List DependencyGroup} {ds : List Dependency} {name : String}

/-- What is left over stands somewhere in the list, and no group admits anything of its name up to
there. -/
theorem mem_leftOver {d : Dependency} :
    d ∈ leftOver groups ds ↔
      ∃ before after, ds = before ++ d :: after ∧
        ∀ g ∈ groups, g.admitsNamed (before ++ [d]) d.name = false := by
  simp only [leftOver, mem_filterWithEarlier, Bool.not_eq_true', List.any_eq_false,
    Bool.not_eq_true]

section Memberless

variable (hempty : ∀ g ∈ groups, g.members = [])
include hempty

/-- **The names in groups** are those under which some group admits a dependency. -/
theorem isGrouped_finished_iff :
    (finished groups ds).isGrouped name = true ↔ ∃ g ∈ groups, g.admitsNamed ds name = true := by
  rw [isGrouped, groups_finished, List.any_map, List.any_eq_true]
  refine exists_congr fun g => and_congr_right fun hg => ?_
  rw [Function.comp_apply, hasMember_enrol (hempty g hg)]

/-- **The names set aside** are those whose first dependency no group admits. -/
theorem isSetAside_finished_iff :
    (finished groups ds).isSetAside name = true ↔
      ∃ first, firstNamed? ds name = some first ∧ ∀ g ∈ groups, g.admits first = false := by
  have hungrouped : (finished groups ds).ungrouped = leftOver groups ds :=
    ungrouped_foldl_place hempty ds
  rw [isSetAside, hungrouped, List.any_eq_true]
  constructor
  · rintro ⟨d, hd, hname⟩
    obtain rfl := beq_iff_eq.mp hname
    obtain ⟨before, after, rfl, hrefused⟩ := mem_leftOver.mp hd
    -- The first one of the name is the dependency itself or stands before it.
    obtain ⟨first, hfirst⟩ :=
      exists_firstNamed? (List.mem_append_right before (List.mem_singleton_self d))
    refine ⟨first, ?_, ?_⟩
    · rw [List.append_cons]
      exact firstNamed?_append_left hfirst after
    · intro g hg
      exact DependencyGroup.admitsNamed_eq_false_iff.mp (hrefused g hg) first
        (mem_of_firstNamed? hfirst) (name_of_firstNamed? hfirst)
  · rintro ⟨first, hfirst, hrefused⟩
    obtain ⟨hname, before, after, rfl, hothers⟩ := List.find?_eq_some_iff_append.mp hfirst
    refine ⟨first, mem_leftOver.mpr ⟨before, after, rfl, ?_⟩, hname⟩
    intro g hg
    rw [DependencyGroup.admitsNamed_eq_false_iff]
    intro d hd hsame
    rcases List.mem_append.mp hd with hd | hd
    · have hother := hothers d hd
      simp [hsame, beq_iff_eq.mp hname] at hother
    · rw [List.mem_singleton.mp hd]
      exact hrefused g hg

/-- **No dependency gets lost**: under its name it is in a group or set aside. -/
theorem isGrouped_or_isSetAside {d : Dependency} (hd : d ∈ ds) :
    (finished groups ds).isGrouped d.name = true ∨
      (finished groups ds).isSetAside d.name = true := by
  rw [isGrouped_finished_iff hempty, isSetAside_finished_iff hempty]
  by_cases hadmitted : ∃ g ∈ groups, g.admitsNamed ds d.name = true
  · exact .inl hadmitted
  · -- No group admits anything of the name, and so not the first of it.
    obtain ⟨first, hfirst⟩ := exists_firstNamed? hd
    refine .inr ⟨first, hfirst, ?_⟩
    intro g hg
    have hnone : g.admitsNamed ds d.name = false :=
      Bool.eq_false_iff.mpr fun hnamed => hadmitted ⟨g, hg, hnamed⟩
    exact DependencyGroup.admitsNamed_eq_false_iff.mp hnone first (mem_of_firstNamed? hfirst)
      (name_of_firstNamed? hfirst)

theorem isGrouped_and_isSetAside_iff :
    (finished groups ds).isGrouped name = true ∧ (finished groups ds).isSetAside name = true ↔
      JoinsLate groups ds name := by
  rw [isGrouped_finished_iff hempty, isSetAside_finished_iff hempty]
  constructor
  · rintro ⟨hadmitted, hrefused⟩
    exact ⟨hrefused, hadmitted⟩
  · rintro ⟨hrefused, hadmitted⟩
    exact ⟨hadmitted, hrefused⟩

end Memberless

/-- **Groups and what is set aside cover the dependencies**, each under its name, and a name is on
both sides exactly if no group admits its first dependency and some group admits a later one. -/
theorem assign_start_covers (hempty : ∀ g ∈ groups, g.members = []) (ds : List Dependency) :
    ∃ a, (start groups).assign ds = .ok a ∧
      ∀ d ∈ ds, (a.isGrouped d.name = true ∨ a.isSetAside d.name = true) ∧
        (a.isGrouped d.name = true ∧ a.isSetAside d.name = true ↔ JoinsLate groups ds d.name) := by
  refine ⟨finished groups ds, assign_start groups ds, ?_⟩
  intro d hd
  exact ⟨isGrouped_or_isSetAside hempty hd, isGrouped_and_isSetAside_iff hempty⟩

/-- The first `rake` is needed in production and set aside, and a later one is not and joins. -/
theorem isGrouped_and_isSetAside_rake :
    ∃ a, (start [developmentGroup]).assign sharedDependencies = .ok a ∧
      a.isGrouped "rake" = true ∧ a.isSetAside "rake" = true :=
  ⟨finished [developmentGroup] sharedDependencies, rfl, by decide, by decide⟩

theorem assign_start_covers_developmentGroup :
    (∀ g ∈ [developmentGroup], g.members = []) ∧
      ∃ a, (start [developmentGroup]).assign sharedDependencies = .ok a ∧
        ∀ d ∈ sharedDependencies, (a.isGrouped d.name = true ∨ a.isSetAside d.name = true) ∧
          (a.isGrouped d.name = true ∧ a.isSetAside d.name = true ↔ d.name = "rake") := by
  have hempty : ∀ g ∈ [developmentGroup], g.members = [] := by decide
  have hlate : ∀ d ∈ sharedDependencies,
      (JoinsLate [developmentGroup] sharedDependencies d.name ↔ d.name = "rake") := by
    decide
  obtain ⟨a, hassign, hcovers⟩ := assign_start_covers hempty sharedDependencies
  refine ⟨hempty, a, hassign, ?_⟩
  intro d hd
  rw [← hlate d hd]
  exact hcovers d hd

end Assignment

end UpdatePlanner
