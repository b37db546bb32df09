import Mathlib.Algebra.Ring.Nat
import Mathlib.Data.List.Flatten
import Mathlib.Data.List.Nodup

/-!
# Members of a list by their keys

A list that is grouped by distinct keys loses no member and repeats none, and so what is counted
in the groups adds up to what is counted in the list. Where the members have distinct keys
themselves, each of them is found under its own.

## Main results

* `perm_flatMap_filter`: the groups together are the list in another order
* `sum_count_eraseDups`: the counts of the distinct members add up
* `filterMap_find?_of_sublist`: what is found under some of the keys, in their order
-/

namespace UpdatePlanner

variable {α κ : Type} [DecidableEq κ]

/-! ### Grouping -/

theorem perm_flatMap_filter (key : α → κ) {keys : List κ} {xs : List α} (nodup : keys.Nodup)
    (mem : ∀ x ∈ xs, key x ∈ keys) :
    (keys.flatMap fun k => xs.filter fun x => key x == k).Perm xs := by
  induction keys generalizing xs with
  | nil =>
    have hxs : xs = [] := List.eq_nil_iff_forall_not_mem.mpr fun x hx => by simpa using mem x hx
    rw [hxs, List.flatMap_nil]
  | cons k keys ih =>
    obtain ⟨hk, hkeys⟩ := List.nodup_cons.mp nodup
    -- The first group is taken out; the other ones lie in what is left.
    let others := xs.filter fun x => !(key x == k)
    have groups : ∀ k' ∈ keys,
        (xs.filter fun x => key x == k') = others.filter fun x => key x == k' := by
      intro k' hk'
      rw [List.filter_filter]
      refine List.filter_congr fun x _ => ?_
      have hne : k' ≠ k := fun h => hk (h ▸ hk')
      by_cases hx : key x = k'
      · simp [hx, hne]
      · simp [hx]
    have rest : (keys.flatMap fun k' => others.filter fun x => key x == k').Perm others := by
      refine ih hkeys fun x hx => ?_
      obtain ⟨hx, hne⟩ := List.mem_filter.mp hx
      exact (List.mem_cons.mp (mem x hx)).resolve_left (by simpa using hne)
    rw [List.flatMap_cons, List.flatMap_congr groups]
    exact (rest.append_left _).trans (List.filter_append_perm _ xs)

theorem nodup_eraseDups (xs : List κ) : xs.eraseDups.Nodup := by
  cases xs with
  | nil => simp
  | cons x xs =>
    rw [List.eraseDups_cons, List.nodup_cons]
    exact ⟨by simp, nodup_eraseDups _⟩
termination_by xs.length
decreasing_by
  rw [List.length_cons]
  exact Nat.lt_succ_of_le (List.length_filter_le ..)

theorem sum_count_eraseDups (xs : List κ) :
    (xs.eraseDups.map fun x => xs.count x).sum = xs.length := by
  have hmem : ∀ x ∈ xs, x ∈ xs.eraseDups := fun x hx => List.mem_eraseDups.mpr hx
  rw [← (perm_flatMap_filter id (nodup_eraseDups xs) hmem).length_eq, List.length_flatMap]
  simp only [List.count_eq_length_filter]
  rfl

/-! ### Looking up -/

/-- Of distinct members, those that stand in a sublist are the sublist. -/
theorem filter_contains_of_sublist {ks keys : List κ} (sub : ks.Sublist keys)
    (nodup : keys.Nodup) : (keys.filter fun k => ks.contains k) = ks := by
  induction sub with
  | slnil => rfl
  | cons k sub ih =>
    obtain ⟨hk, hkeys⟩ := List.nodup_cons.mp nodup
    have hnot : k ∉ _ := fun h => hk (sub.subset h)
    rw [List.filter_cons_of_neg (by simpa using hnot), ih hkeys]
  | cons_cons k sub ih =>
    obtain ⟨hk, hkeys⟩ := List.nodup_cons.mp nodup
    rw [List.filter_cons_of_pos (by simp)]
    congr 1
    refine Eq.trans (List.filter_congr fun k' hk' => ?_) (ih hkeys)
    have hne : k' ≠ k := fun h => hk (h ▸ hk')
    simp [hne]

variable {key : α → κ} {xs : List α}

theorem find?_key_eq_some (nodup : (xs.map key).Nodup) {x : α} (hx : x ∈ xs) :
    (xs.find? fun y => key y == key x) = some x := by
  cases h : xs.find? fun y => key y == key x with
  | none => simpa using List.find?_eq_none.mp h x hx
  | some y =>
    have hkey := List.find?_some h
    rw [List.inj_on_of_nodup_map nodup (List.mem_of_find?_eq_some h) hx (beq_iff_eq.mp hkey)]

section Sublist

variable (nodup : (xs.map key).Nodup) {ks : List κ} (sub : ks.Sublist (xs.map key))
include nodup sub

theorem map_filter_of_sublist : (xs.filter fun x => ks.contains (key x)).map key = ks := by
  have h := filter_contains_of_sublist sub nodup
  rwa [List.filter_map] at h

theorem length_filter_of_sublist : (xs.filter fun x => ks.contains (key x)).length = ks.length := by
  rw [← List.length_map (f := key), map_filter_of_sublist nodup sub]

/-- **What is found under some of the keys**, one after another, are the members that have them. -/
theorem filterMap_find?_of_sublist :
    (ks.filterMap fun k => xs.find? fun x => key x == k) =
      xs.filter fun x => ks.contains (key x) := by
  have found : ∀ x ∈ xs.filter fun x => ks.contains (key x),
      (xs.find? fun y => key y == key x) = some x :=
    fun x hx => find?_key_eq_some nodup (List.mem_filter.mp hx).1
  calc (ks.filterMap fun k => xs.find? fun x => key x == k)
    _ = ((xs.filter fun x => ks.contains (key x)).map key).filterMap
          fun k => xs.find? fun x => key x == k := by rw [map_filter_of_sublist nodup sub]
    _ = (xs.filter fun x => ks.contains (key x)).filterMap some := by
      rw [List.filterMap_map]
      exact List.filterMap_congr found
    _ = xs.filter fun x => ks.contains (key x) := List.filterMap_some

end Sublist

end UpdatePlanner
