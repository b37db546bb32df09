import Mathlib.Data.List.Count
import Mathlib.Data.Option.Basic
import Mathlib.Data.String.Basic
import UpdatePlanner.Proofs.Data.Keys
import UpdatePlanner.Report.Summary

/-!
# The counts add up

Updates are counted by size, skips by reason, and both by package manager. Each of the three
ways of counting meets every decision of its kind once.

## Main results

* `Plan.sum_changeCount`: every update has one of the four sizes
* `Plan.sum_reasonCounts`, `Plan.pairwise_reasonCounts`: every skip is counted under its reason,
  and the most frequent reasons come first
* `Plan.perm_flatMap_managerCounts`: every dependency is counted under one package manager
* `Plan.sum_updates_managerCounts`, `Plan.sum_skips_managerCounts`: the counts of the package
  managers add up to those of the plan
-/

namespace UpdatePlanner.Plan

variable (p : Plan)

/-! ### Sizes of updates -/

theorem sum_changeCount :
    p.changeCount .major + p.changeCount .minor + p.changeCount .patch + p.changeCount .unknown =
      p.updates.length := by
  simp only [changeCount]
  induction p.updates with
  | nil => rfl
  | cons d ds ih => cases h : d.change <;> simp [h] <;> omega

/-! ### Reasons of skips -/

/-- The texts of the reasons belong to the skips, one to each. -/
theorem map_some_skipTexts :
    p.skipTexts.map some = p.skips.map fun d => d.decision.skipReason?.map SkipReason.brief := by
  simp only [skipTexts, skips]
  induction p.dependencies with
  | nil => rfl
  | cons d ds ih =>
    obtain ⟨groups, ignored, decision⟩ := d
    cases decision with
    | update => exact ih
    | skip => exact congrArg (List.cons _) ih

theorem length_skipTexts : p.skipTexts.length = p.skips.length := by
  simpa using congrArg List.length p.map_some_skipTexts

theorem count_skipTexts (r : String) :
    p.skipTexts.count r =
      p.skips.countP fun d => d.decision.skipReason?.map SkipReason.brief == some r := by
  rw [← List.count_map_of_injective p.skipTexts some (Option.some_injective String),
    map_some_skipTexts, List.count, List.countP_map]
  rfl

theorem countPrecedes_iff {a b : String × Nat} :
    countPrecedes a b ↔ b.2 < a.2 ∨ a.2 = b.2 ∧ a.1 ≤ b.1 := by
  rw [countPrecedes, Ordering.isLE_then_iff_or, compare_lt_iff_lt, compare_eq_iff_eq,
    Std.LawfulBCmp.isLE_iff_le, eq_comm]

theorem countPrecedes_trans (a b c : String × Nat) (hab : countPrecedes a b)
    (hbc : countPrecedes b c) : countPrecedes a c := by
  rw [countPrecedes_iff] at *
  rcases hab with hab | ⟨hab, hab'⟩ <;> rcases hbc with hbc | ⟨hbc, hbc'⟩
  · exact .inl (hbc.trans hab)
  · exact .inl (hbc ▸ hab)
  · exact .inl (hab ▸ hbc)
  · exact .inr ⟨hab.trans hbc, hab'.trans hbc'⟩

theorem countPrecedes_total (a b : String × Nat) : countPrecedes a b || countPrecedes b a := by
  rw [Bool.or_eq_true, countPrecedes_iff, countPrecedes_iff]
  rcases lt_trichotomy a.2 b.2 with h | h | h
  · exact .inr (.inl h)
  · exact (le_total a.1 b.1).imp (.inr ⟨h, ·⟩) (.inr ⟨h.symm, ·⟩)
  · exact .inl (.inl h)

theorem perm_reasonCounts :
    p.reasonCounts.Perm (p.skipTexts.eraseDups.map fun r => (r, p.skipTexts.count r)) :=
  List.mergeSort_perm ..

theorem nodup_fst_reasonCounts : (p.reasonCounts.map Prod.fst).Nodup := by
  rw [(p.perm_reasonCounts.map Prod.fst).nodup_iff, List.map_map]
  simpa [Function.comp_def] using nodup_eraseDups p.skipTexts

theorem mem_reasonCounts_iff {r : String} {n : Nat} :
    (r, n) ∈ p.reasonCounts ↔ r ∈ p.skipTexts ∧ n = p.skipTexts.count r := by
  rw [p.perm_reasonCounts.mem_iff, List.mem_map]
  simp only [List.mem_eraseDups, Prod.mk.injEq]
  constructor
  · rintro ⟨_, hr, rfl, rfl⟩
    exact ⟨hr, rfl⟩
  · rintro ⟨hr, rfl⟩
    exact ⟨r, hr, rfl, rfl⟩

/-- The most frequent reasons come first, and equally frequent ones in the order of their texts.
No text stands twice, so the order is strict. -/
theorem pairwise_reasonCounts :
    p.reasonCounts.Pairwise fun a b => b.2 < a.2 ∨ a.2 = b.2 ∧ a.1 < b.1 := by
  have sorted : p.reasonCounts.Pairwise fun a b => countPrecedes a b :=
    List.pairwise_mergeSort countPrecedes_trans countPrecedes_total _
  have distinct : p.reasonCounts.Pairwise fun a b => a.1 ≠ b.1 :=
    List.pairwise_map.mp p.nodup_fst_reasonCounts
  refine (sorted.and distinct).imp ?_
  rintro a b ⟨hab, hne⟩
  exact (countPrecedes_iff.mp hab).imp_right fun h => ⟨h.1, lt_of_le_of_ne h.2 hne⟩

theorem sum_reasonCounts : (p.reasonCounts.map Prod.snd).sum = p.skips.length := by
  rw [(p.perm_reasonCounts.map Prod.snd).sum_nat, List.map_map, ← p.length_skipTexts]
  exact sum_count_eraseDups p.skipTexts

/-! ### Package managers -/

theorem managerCounts_eq :
    p.managerCounts = (PackageManager.all.filter fun m => !(p.managedBy m).isEmpty).map fun m =>
      ⟨m, (p.managedBy m).countP fun d => d.isUpdate,
        (p.managedBy m).countP fun d => !d.isUpdate⟩ := by
  rw [managerCounts, ← List.filterMap_eq_map, ← List.filterMap_eq_filter, List.filterMap_filterMap]
  refine List.filterMap_congr fun m _ => ?_
  cases h : (p.managedBy m).isEmpty <;> simp [h, Option.guard]

theorem map_manager_managerCounts :
    p.managerCounts.map ManagerCount.manager =
      PackageManager.all.filter fun m => !(p.managedBy m).isEmpty := by
  rw [managerCounts_eq, List.map_map]
  exact List.map_id _

theorem nodup_managerCounts : (p.managerCounts.map ManagerCount.manager).Nodup := by
  rw [map_manager_managerCounts]
  exact PackageManager.nodup_all.filter _

/-- A package manager that a dependency has is counted. -/
theorem mem_managers {d : PlannedDependency} (hd : d ∈ p.dependencies) :
    d.decision.dependency.manager ∈ p.managerCounts.map ManagerCount.manager := by
  rw [map_manager_managerCounts, List.mem_filter]
  have hmem : d ∈ p.managedBy d.decision.dependency.manager := by simp [managedBy, hd]
  exact ⟨PackageManager.mem_all _, by simpa using List.ne_nil_of_mem hmem⟩

theorem perm_flatMap_managerCounts :
    (p.managerCounts.flatMap fun n => p.managedBy n.manager).Perm p.dependencies := by
  rw [← List.flatMap_map ManagerCount.manager p.managedBy]
  exact perm_flatMap_filter _ p.nodup_managerCounts fun d hd => p.mem_managers hd

/-- A row counts what its package manager has. -/
theorem eq_of_mem_managerCounts {n : ManagerCount} (hn : n ∈ p.managerCounts) :
    n = ⟨n.manager, (p.managedBy n.manager).countP fun d => d.isUpdate,
      (p.managedBy n.manager).countP fun d => !d.isUpdate⟩ := by
  rw [managerCounts_eq] at hn
  obtain ⟨m, -, rfl⟩ := List.mem_map.mp hn
  rfl

theorem updates_of_mem_managerCounts {n : ManagerCount} (hn : n ∈ p.managerCounts) :
    n.updates = (p.managedBy n.manager).countP fun d => d.isUpdate :=
  congrArg ManagerCount.updates (p.eq_of_mem_managerCounts hn)

theorem skips_of_mem_managerCounts {n : ManagerCount} (hn : n ∈ p.managerCounts) :
    n.skips = (p.managedBy n.manager).countP fun d => !d.isUpdate :=
  congrArg ManagerCount.skips (p.eq_of_mem_managerCounts hn)

/-- What is counted for each package manager adds up to the count over the plan. -/
theorem sum_countP_managedBy (q : PlannedDependency → Bool) :
    (p.managerCounts.map fun n => (p.managedBy n.manager).countP q).sum =
      p.dependencies.countP q := by
  rw [← p.perm_flatMap_managerCounts.countP_eq q, List.countP_flatMap]
  rfl

theorem sum_updates_managerCounts :
    (p.managerCounts.map ManagerCount.updates).sum = p.updates.length := by
  rw [List.map_congr_left fun n hn => p.updates_of_mem_managerCounts hn, sum_countP_managedBy,
    updates, List.countP_eq_length_filter]

theorem sum_skips_managerCounts :
    (p.managerCounts.map ManagerCount.skips).sum = p.skips.length := by
  rw [List.map_congr_left fun n hn => p.skips_of_mem_managerCounts hn, sum_countP_managedBy,
    skips, List.countP_eq_length_filter]

end UpdatePlanner.Plan
