import UpdatePlanner.Proofs.Plan.Run

/-!
# Where proposed versions come from

The versions offered to a dependency are looked up by its name, and where a name comes up more than
once its first entry counts for all of them. So an update comes from the first entry of the name;
that is the dependency's own entry unless an earlier one has the name, be it that of another package
manager.

## Main definitions

* `Job.firstWith? job name`: the first entry of a name

## Main results

* `Job.mem_offered_of_update`: an update is to a version that the first entry of the name offers
* `Job.update_of_other_manager`: which may not be the entry of the dependency
-/

namespace UpdatePlanner

namespace Job

open Assignment

variable {job : Job} {options : PlanOptions} {plan : Plan}

/-- The first entry of a name. -/
def firstWith? (job : Job) (name : String) : Option Entry :=
  job.entries.find? fun e => e.dependency.name == name

/-- What is offered under a name is what its first entry offers. -/
theorem mem_offeredFor_iff {name : String} {c : Candidate} :
    c ∈ job.offeredFor name ↔ ∃ first, job.firstWith? name = some first ∧ c ∈ first.offered := by
  have hoffered : job.offeredFor name = ((job.firstWith? name).map Entry.offered).getD [] := rfl
  rw [hoffered]
  cases job.firstWith? name with
  | none => simp
  | some first => simp

/-- An entry without an earlier one of its name is the first of the name. -/
theorem firstWith?_of_getElem? {i : Nat} {e : Entry} (he : job.entries[i]? = some e)
    (hearlier : ∀ e' ∈ job.entries.take i, e'.dependency.name ≠ e.dependency.name) :
    job.firstWith? e.dependency.name = some e := by
  obtain ⟨hi, hget⟩ := List.getElem?_eq_some_iff.mp he
  rw [firstWith?, List.find?_eq_some_iff_getElem]
  refine ⟨beq_self_eq_true _, i, hi, hget, ?_⟩
  intro j hj
  have hbefore : job.entries[j] ∈ job.entries.take i :=
    List.mem_take_iff_getElem.mpr ⟨j, by omega, rfl⟩
  rw [beq_false_of_ne (hearlier _ hbefore), Bool.not_false]

/-- **An update is to a version that the first entry of the name offers**, with the date given
there. Where no earlier entry has the name, that is the entry of the dependency. -/
theorem mem_offered_of_update {i : Nat} {p : PlannedDependency} {d : Dependency} {w : String}
    {t : Option Instant} (hrun : job.plan? options = .ok plan)
    (hp : plan.dependencies[i]? = some p) (hupdate : p.decision = .update d w t) :
    ∃ own first, job.entries[i]? = some own ∧ own.dependency = d ∧
      job.firstWith? d.name = some first ∧ ⟨w, t⟩ ∈ first.offered ∧
        ((∀ e ∈ job.entries.take i, e.dependency.name ≠ d.name) → first = own) := by
  obtain ⟨_, _, -, -, -, hentered⟩ := exists_entered hrun (List.mem_of_getElem? hp)
  obtain ⟨_, -, hoffered, -, -⟩ := hentered.exists_selected hupdate
  obtain ⟨conditions, groups, -, -, rfl⟩ := plan?_eq_ok_iff.mp hrun
  obtain ⟨d', hd', rfl⟩ := exists_of_getElem?_planWith hp
  -- The decision is about the dependency at that place of the job.
  obtain rfl : d' = d := eq_of_planFor_update hupdate
  rw [name_planFor] at hoffered
  obtain ⟨first, hfirst, hmem⟩ := mem_offeredFor_iff.mp hoffered
  rw [dependencies, List.getElem?_map, Option.map_eq_some_iff] at hd'
  obtain ⟨own, hown, rfl⟩ := hd'
  refine ⟨own, first, hown, rfl, hfirst, hmem, ?_⟩
  intro hearlier
  rw [firstWith?_of_getElem? hown hearlier] at hfirst
  exact (Option.some.inj hfirst).symm

/-- A job with a package of one name from two package managers. -/
def sharedNameJob : Job where
  securityOnly := false
  experiments := .none
  groups := []
  conditions := []
  entries := [⟨⟨"rack", some "1.0", .bundler, []⟩, [⟨"2.0", none⟩]⟩,
    ⟨⟨"rack", some "1.0", .npmAndYarn, []⟩, [⟨"1.5", none⟩]⟩]

/-- The plan for the job. -/
def sharedNamePlan : Plan where
  securityOnly := false
  groups := []
  ungrouped := ["rack", "rack"]
  dependencies := [⟨[], [], .update ⟨"rack", some "1.0", .bundler, []⟩ "2.0" none⟩,
    ⟨[], [], .update ⟨"rack", some "1.0", .npmAndYarn, []⟩ "2.0" none⟩]
  failures := []

theorem plan?_sharedNameJob : sharedNameJob.plan? ⟨false, none, ⟨0, 0⟩⟩ = .ok sharedNamePlan := by
  with_unfolding_all decide

/-- Entries that differ in their package managers share what the first of them offers: the second
one is updated to a version that it does not offer. -/
theorem update_of_other_manager :
    sharedNameJob.plan? ⟨false, none, ⟨0, 0⟩⟩ = .ok sharedNamePlan ∧
      (sharedNameJob.entries.map fun e => (e.dependency.name, e.dependency.manager)).Nodup ∧
        ∃ p own, sharedNamePlan.dependencies[1]? = some p ∧
          sharedNameJob.entries[1]? = some own ∧
            p.decision = .update own.dependency "2.0" none ∧
              ∀ c ∈ own.offered, c.version ≠ "2.0" :=
  ⟨plan?_sharedNameJob, by decide, _, _, rfl, rfl, rfl, by decide⟩

theorem mem_offered_of_update_sharedNameJob :
    sharedNameJob.plan? ⟨false, none, ⟨0, 0⟩⟩ = .ok sharedNamePlan ∧
      sharedNamePlan.dependencies[1]? =
        some ⟨[], [], .update ⟨"rack", some "1.0", .npmAndYarn, []⟩ "2.0" none⟩ ∧
        ∃ own first, sharedNameJob.entries[1]? = some own ∧
          own.dependency = ⟨"rack", some "1.0", .npmAndYarn, []⟩ ∧
            sharedNameJob.firstWith? "rack" = some first ∧ ⟨"2.0", none⟩ ∈ first.offered ∧
              ((∀ e ∈ sharedNameJob.entries.take 1, e.dependency.name ≠ "rack") → first = own) :=
  ⟨plan?_sharedNameJob, rfl, mem_offered_of_update plan?_sharedNameJob rfl rfl⟩

end Job

end UpdatePlanner
