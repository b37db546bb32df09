import Mathlib.Data.List.Induction
import UpdatePlanner.Proofs.Data.Keys
import UpdatePlanner.Proofs.Traversal

/-!
# Members of a list by what stands before them

A list is often walked with an eye on what came earlier: a member is kept if nothing like it was
met. Such a walk is described by the places of the members. Where only repetitions are dropped, what
is read of the list stays the same, down to the first member that cannot be read.

## Main definitions

* `filterWithEarlier p xs`: the members of a list that fit what stands before them
* `firstOccurrences xs`: the members of a list without their repetitions
* `addNew seen xs`: what is new in a list, behind what was seen before

## Main results

* `eraseDups_eq_firstOccurrences`: repetitions are what `List.eraseDups` drops
* `foldl_addNew`: first occurrences are gathered list by list
* `mapM_eraseDups_eq_error_iff`: the first failure does not hang on repetitions
-/

namespace UpdatePlanner

section Earlier

variable {α : Type}

/-- The members of a list that fit what stands before them. -/
def filterWithEarlier (p : List α → α → Bool) (xs : List α) : List α :=
  (xs.zipIdx.filter fun e => p (xs.take e.2) e.1).map Prod.fst

theorem filterWithEarlier_concat (p : List α → α → Bool) (xs : List α) (x : α) :
    filterWithEarlier p (xs ++ [x]) =
      filterWithEarlier p xs ++ (if p xs x then [x] else []) := by
  -- Nothing changes for the members that were there before.
  have hearlier : (xs.zipIdx.filter fun e => p ((xs ++ [x]).take e.2) e.1) =
      xs.zipIdx.filter fun e => p (xs.take e.2) e.1 := by
    apply List.filter_congr
    intro e he
    have hlt := (List.mem_zipIdx he).2.1
    rw [List.take_append_of_le_length (by omega)]
  have htake : (xs ++ [x]).take xs.length = xs := List.take_left
  unfold filterWithEarlier
  rw [List.zipIdx_append, List.filter_append, hearlier, List.map_append, List.zipIdx_singleton,
    Nat.zero_add]
  by_cases hx : p xs x = true
  · rw [List.filter_cons_of_pos (by simpa only [htake] using hx), if_pos hx]
    rfl
  · rw [List.filter_cons_of_neg (by simpa only [htake] using hx), if_neg hx]
    rfl

/-- What is kept stands somewhere in the list and fits what stands before it there. -/
theorem mem_filterWithEarlier {p : List α → α → Bool} {xs : List α} {x : α} :
    x ∈ filterWithEarlier p xs ↔
      ∃ before after, xs = before ++ x :: after ∧ p before x = true := by
  rw [filterWithEarlier, List.mem_map]
  constructor
  · rintro ⟨⟨y, i⟩, hfilter, rfl⟩
    obtain ⟨hmem, hfits⟩ := List.mem_filter.mp hfilter
    obtain ⟨hi, hy⟩ := List.getElem?_eq_some_iff.mp (List.mem_zipIdx_iff_getElem?.mp hmem)
    refine ⟨xs.take i, xs.drop (i + 1), ?_, hfits⟩
    rw [← hy, ← List.drop_eq_getElem_cons hi, List.take_append_drop]
  · rintro ⟨before, after, rfl, hfits⟩
    refine ⟨(x, before.length), List.mem_filter.mpr ⟨?_, ?_⟩, rfl⟩
    · rw [List.mem_zipIdx_iff_getElem?, List.getElem?_append_right (Nat.le_refl _), Nat.sub_self]
      rfl
    · rw [List.take_left]
      exact hfits

theorem filterWithEarlier_sublist (p : List α → α → Bool) (xs : List α) :
    (filterWithEarlier p xs).Sublist xs := by
  have h := (List.filter_sublist (p := fun e => p (xs.take e.2) e.1) (l := xs.zipIdx)).map Prod.fst
  rwa [List.zipIdx_map_fst] at h

end Earlier

/-! ## Repetitions -/

section Distinct

variable {α : Type} [DecidableEq α]

/-- The members of a list without their repetitions: those that do not stand in it before. -/
def firstOccurrences (xs : List α) : List α :=
  filterWithEarlier (fun earlier x => !earlier.contains x) xs

theorem firstOccurrences_concat (xs : List α) (x : α) :
    firstOccurrences (xs ++ [x]) =
      if xs.contains x then firstOccurrences xs else firstOccurrences xs ++ [x] := by
  rw [firstOccurrences, filterWithEarlier_concat]
  cases xs.contains x with
  | false => rfl
  | true => exact List.append_nil _

theorem eraseDups_eq_firstOccurrences (xs : List α) : xs.eraseDups = firstOccurrences xs := by
  -- By induction from the last member on, which is kept unless it is a repetition.
  induction xs using List.reverseRecOn with
  | nil => rfl
  | append_singleton xs x ih =>
    rw [List.eraseDups_append, firstOccurrences_concat, ih, List.removeAll]
    by_cases h : x ∈ xs
    · simp [h]
    · simp [h, List.eraseDups_cons]

theorem mem_firstOccurrences {xs : List α} {x : α} : x ∈ firstOccurrences xs ↔ x ∈ xs := by
  rw [← eraseDups_eq_firstOccurrences, List.mem_eraseDups]

theorem nodup_firstOccurrences (xs : List α) : (firstOccurrences xs).Nodup := by
  rw [← eraseDups_eq_firstOccurrences]
  exact nodup_eraseDups xs

/-- What is new in a list, put behind what was seen before. -/
def addNew (seen xs : List α) : List α :=
  xs.foldl (fun seen x => if seen.contains x then seen else seen ++ [x]) seen

/-- A step of a gathering: what is new in one more list. -/
theorem addNew_firstOccurrences (seen xs : List α) :
    addNew (firstOccurrences seen) xs = firstOccurrences (seen ++ xs) := by
  induction xs generalizing seen with
  | nil => rw [List.append_nil]; rfl
  | cons x xs ih =>
    have hseen : (firstOccurrences seen).contains x = seen.contains x := by
      rw [Bool.eq_iff_iff, List.contains_iff_mem, List.contains_iff_mem, mem_firstOccurrences]
    rw [List.append_cons, ← ih, firstOccurrences_concat, addNew, List.foldl_cons, hseen, addNew]

/-- **What is gathered list by list**, always what is new, are the first occurrences in all lists
together. -/
theorem foldl_addNew (lists : List (List α)) (seen : List α) :
    lists.foldl addNew (firstOccurrences seen) = firstOccurrences (seen ++ lists.flatten) := by
  induction lists generalizing seen with
  | nil => rw [List.flatten_nil, List.append_nil, List.foldl_nil]
  | cons xs lists ih =>
    rw [List.foldl_cons, addNew_firstOccurrences, ih, List.flatten_cons, List.append_assoc]

/-- **The first failure does not hang on repetitions**, as what fails first is no repetition. -/
theorem mapM_eraseDups_eq_error_iff {ε β : Type} {f : α → Except ε β} {xs : List α} {e : ε} :
    xs.eraseDups.mapM f = .error e ↔ xs.mapM f = .error e := by
  have himp : ∀ {e}, xs.mapM f = .error e → xs.eraseDups.mapM f = .error e := by
    intro e h
    obtain ⟨before, x, after, rfl, hx, hbefore⟩ := mapM_eq_error_iff.mp h
    have hnew : x ∉ before := by
      intro hmem
      obtain ⟨y, hy⟩ := hbefore x hmem
      cases hx.symm.trans hy
    refine mapM_eq_error_iff.mpr
      ⟨before.eraseDups, x, ((after.removeAll before).filter fun y => !y == x).eraseDups, ?_, hx,
        ?_⟩
    · rw [List.eraseDups_append, List.removeAll, List.filter_cons_of_pos (by simp [hnew]),
        List.eraseDups_cons, ← List.removeAll]
    · intro y hy
      exact hbefore y (List.mem_eraseDups.mp hy)
  refine ⟨?_, himp⟩
  intro h
  cases hxs : xs.mapM f with
  | error e' => exact (himp hxs).symm.trans h
  | ok ys =>
    -- Where all members are read, those that are kept are.
    obtain ⟨zs, hzs⟩ := exists_mapM_eq_ok fun x hx =>
      (exists_mem_of_mapM hxs (List.mem_eraseDups.mp hx)).imp fun _ h => h.2
    cases hzs.symm.trans h

end Distinct

end UpdatePlanner
