import UpdatePlanner.Text.Blank
import UpdatePlanner.Text.Number

/-!
# Cutting texts

Version texts are cut at separators, at the last underscore and at the first character of
another kind, and boundaries are joined with dots. Each cut is described by the text that it
cuts, and a join of clean pieces is cut back into them.

## Main results

* `takeWhile_append_cons_of_neg`, `dropWhile_append_cons_of_neg`: a run ends at the first
  character outside its class
* `takeWhile_run_append`, `dropWhile_run_append`: a run is found again in front of a text that
  begins outside its class
* `trim_eq_self`: text without white space is trimmed already
* `exists_blank_append_trim`, `trim_append_of_blank`: trimming takes white space away and no more
* `splitLast_append`: what stands in front of the last separator may be longer
* `splitLast_eq_some`: the cut of a text at the last occurrence of a separator
* `splitOnP_intercalate`: pieces without separators are found again in their join
-/

namespace UpdatePlanner.Text

/-! ## Runs -/

section Runs

variable {α : Type} {p : α → Bool} {c : α}

theorem takeWhile_append_cons_of_neg (hc : p c = false) (xs ys : List α) :
    (xs ++ c :: ys).takeWhile p = xs.takeWhile p := by
  induction xs with
  | nil => simp [hc]
  | cons x xs ih => by_cases hx : p x = true <;> simp [hx, ih]

theorem dropWhile_append_cons_of_neg (hc : p c = false) (xs ys : List α) :
    (xs ++ c :: ys).dropWhile p = xs.dropWhile p ++ c :: ys := by
  induction xs with
  | nil => simp [hc]
  | cons x xs ih => by_cases hx : p x = true <;> simp [hx, ih]

theorem takeWhile_eq_nil {xs : List α} (h : ∀ x ∈ xs.head?, p x = false) :
    xs.takeWhile p = [] := by
  cases xs with
  | nil => rfl
  | cons x xs => exact List.takeWhile_cons_of_neg (by simp [h x rfl])

theorem dropWhile_eq_self {xs : List α} (h : ∀ x ∈ xs.head?, p x = false) :
    xs.dropWhile p = xs := by
  cases xs with
  | nil => rfl
  | cons x xs => exact List.dropWhile_cons_of_neg (by simp [h x rfl])

/-- What a run leaves of a text begins outside of its class. -/
theorem head?_dropWhile (xs : List α) : ∀ x ∈ (xs.dropWhile p).head?, p x = false := by
  intro x hx
  have hnot := List.head?_dropWhile_not p xs
  rwa [Option.mem_def.mp hx] at hnot

section Ends

variable {run xs : List α} (hrun : ∀ x ∈ run, p x = true) (hend : ∀ x ∈ xs.head?, p x = false)
include hrun hend

/-- A run ends in front of a text that begins outside of its class. -/
theorem takeWhile_run_append : (run ++ xs).takeWhile p = run := by
  rw [List.takeWhile_append_of_pos hrun, takeWhile_eq_nil hend, List.append_nil]

theorem dropWhile_run_append : (run ++ xs).dropWhile p = xs := by
  rw [List.dropWhile_append_of_pos hrun, dropWhile_eq_self hend]

end Ends

end Runs

/-! ## Trimming -/

theorem trimLeft_eq_self {cs : List Char} (h : ∀ c ∈ cs.head?, isBlank c = false) :
    trimLeft cs = cs :=
  dropWhile_eq_self h

/-- A text that neither begins nor ends with white space is trimmed already. -/
theorem trim_eq_self {cs : List Char} (hhead : ∀ c ∈ cs.head?, isBlank c = false)
    (hlast : ∀ c ∈ cs.getLast?, isBlank c = false) : trim cs = cs := by
  unfold trim
  rw [trimLeft_eq_self hhead, trimRight, dropWhile_eq_self, List.reverse_reverse]
  simpa [List.head?_reverse] using hlast

theorem trim_eq_self_of_not_blank {cs : List Char} (h : ∀ c ∈ cs, isBlank c = false) :
    trim cs = cs :=
  trim_eq_self (fun c hc => h c (List.mem_of_mem_head? hc))
    fun c hc => h c (List.mem_of_getLast? hc)

theorem exists_blank_append_trimLeft (cs : List Char) :
    ∃ before, AllBlank before ∧ before ++ trimLeft cs = cs :=
  ⟨cs.takeWhile isBlank, List.all_eq_true.mp List.all_takeWhile, List.takeWhile_append_dropWhile⟩

theorem exists_trimRight_append_blank (cs : List Char) :
    ∃ after, AllBlank after ∧ trimRight cs ++ after = cs := by
  obtain ⟨before, hbefore, hcs⟩ := exists_blank_append_trimLeft cs.reverse
  refine ⟨before.reverse, fun c hc => hbefore c (List.mem_reverse.mp hc), ?_⟩
  have hrev := congrArg List.reverse hcs
  rwa [List.reverse_append, List.reverse_reverse] at hrev

/-- Trimming takes nothing away but the white space around a text. -/
theorem exists_blank_append_trim (cs : List Char) :
    ∃ before after, AllBlank before ∧ AllBlank after ∧ before ++ (trim cs ++ after) = cs := by
  obtain ⟨before, hbefore, hcs⟩ := exists_blank_append_trimLeft cs
  obtain ⟨after, hafter, hleft⟩ := exists_trimRight_append_blank (trimLeft cs)
  refine ⟨before, after, hbefore, hafter, ?_⟩
  rw [trim, hleft, hcs]

theorem trimLeft_append_of_blank {before : List Char} (h : AllBlank before) (cs : List Char) :
    trimLeft (before ++ cs) = trimLeft cs := by
  rw [trimLeft, List.dropWhile_append_of_pos h, trimLeft]

theorem trimRight_append_of_blank {after : List Char} (h : AllBlank after) (cs : List Char) :
    trimRight (cs ++ after) = trimRight cs := by
  have hrev : AllBlank after.reverse := fun c hc => h c (List.mem_reverse.mp hc)
  rw [trimRight, List.reverse_append, List.dropWhile_append_of_pos hrev, trimRight]

/-- White space around a text does not count. -/
theorem trim_append_of_blank {before after : List Char} (hbefore : AllBlank before)
    (hafter : AllBlank after) (cs : List Char) : trim (before ++ (cs ++ after)) = trim cs := by
  rw [trim, trimLeft_append_of_blank hbefore]
  by_cases hcs : trimLeft cs = []
  · -- Then there is nothing but white space.
    have hblank : AllBlank cs := (dropWhile_isBlank_eq_nil_iff cs).mp hcs
    rw [(trim_eq_nil_iff cs).mpr hblank, ← trim, trim_eq_nil_iff]
    intro c hc
    exact (List.mem_append.mp hc).elim (hblank c) (hafter c)
  · have hleft : trimLeft (cs ++ after) = trimLeft cs ++ after := by
      rw [trimLeft, List.dropWhile_append, if_neg, trimLeft]
      simpa [trimLeft] using hcs
    rw [hleft, trimRight_append_of_blank hafter, trim]

/-! ## The last separator -/

section SplitLast

variable {sep : Char}

theorem splitLast_eq_none {cs : List Char} (h : sep ∉ cs) : splitLast sep cs = none := by
  induction cs with
  | nil => rfl
  | cons c cs ih =>
    rw [List.mem_cons, not_or] at h
    simp [splitLast, ih h.2, Ne.symm h.1]

/-- What stands in front of a text without the separator is kept in front of the cut. -/
theorem splitLast_append {xs : List Char} (h : sep ∉ xs) (cs : List Char) :
    splitLast sep (xs ++ cs) = (splitLast sep cs).map fun (b, a) => (xs ++ b, a) := by
  induction xs with
  | nil => simp
  | cons x xs ih =>
    rw [List.mem_cons, not_or] at h
    rw [List.cons_append, splitLast, ih h.2]
    -- A cut further on wins over one at `x`.
    cases splitLast sep cs with
    | none => simp [Ne.symm h.1]
    | some ba => simp

/-- The cut takes nothing away but the separator. -/
theorem splitLast_eq_some {cs before after : List Char}
    (h : splitLast sep cs = some (before, after)) : cs = before ++ sep :: after := by
  induction cs generalizing before with
  | nil => simp [splitLast] at h
  | cons c cs ih =>
    rw [splitLast] at h
    cases hs : splitLast sep cs with
    | some ba =>
      obtain ⟨b, a⟩ := ba
      simp only [hs, Option.some.injEq, Prod.mk.injEq] at h
      obtain ⟨rfl, rfl⟩ := h
      simp [ih hs]
    | none =>
      simp only [hs, Option.ite_none_right_eq_some, Option.some.injEq, Prod.mk.injEq] at h
      obtain ⟨rfl, rfl, rfl⟩ := h
      rfl

/-- The cut of a text that ends without the separator lies in what comes before. -/
theorem splitLast_append_right {ys : List Char} (h : sep ∉ ys) (cs : List Char) :
    splitLast sep (cs ++ ys) = (splitLast sep cs).map fun (b, a) => (b, a ++ ys) := by
  induction cs with
  | nil => simp [splitLast, splitLast_eq_none h]
  | cons c cs ih =>
    rw [List.cons_append, splitLast, splitLast, ih]
    cases splitLast sep cs with
    | none => by_cases hc : c = sep <;> simp [hc]
    | some ba => simp

end SplitLast

/-! ## Pieces between separators -/

section SplitOnP

variable {q : Char → Bool}

/-- No piece holds a separator. -/
theorem splitOnP_clean {cs piece : List Char} (h : piece ∈ cs.splitOnP q) :
    ∀ c ∈ piece, q c = false := by
  induction cs generalizing piece with
  | nil =>
    rw [List.splitOnP_nil, List.mem_singleton] at h
    simp [h]
  | cons d ds ih =>
    rw [List.splitOnP_cons_eq_if_modifyHead] at h
    split at h
    · rcases List.mem_cons.mp h with rfl | h
      · simp
      · exact ih h
    · next hd =>
      -- `d` joins the first piece of the rest.
      obtain ⟨first, rest, he⟩ := List.exists_cons_of_ne_nil (List.splitOnP_ne_nil q ds)
      rw [he, List.modifyHead_cons, List.mem_cons] at h
      rw [he] at ih
      rcases h with rfl | h
      · rw [List.forall_mem_cons]
        exact ⟨by simpa using hd, ih (by simp)⟩
      · exact ih (by simp [h])

/-- Pieces without separators are found again in their join. -/
theorem splitOnP_intercalate {sep : Char} (hsep : q sep = true) {pieces : List (List Char)}
    (hne : pieces ≠ []) (h : ∀ piece ∈ pieces, ∀ c ∈ piece, q c = false) :
    ([sep].intercalate pieces).splitOnP q = pieces := by
  induction pieces with
  | nil => exact absurd rfl hne
  | cons p ps ih =>
    rw [List.forall_mem_cons] at h
    cases ps with
    | nil => rw [List.intercalate_singleton, List.splitOnP_eq_singleton h.1]
    | cons r rs =>
      rw [List.intercalate_cons_cons, List.append_assoc, List.singleton_append,
        List.splitOnP_append_cons_of_forall_mem h.1 sep hsep, ih (by simp) h.2]

end SplitOnP

/-! ## Beginnings -/

theorem isPrefixOf?_nil (cs : List Char) : [].isPrefixOf? cs = some cs := by
  cases cs <;> rfl

theorem isPrefixOf?_cons (c d : Char) (cs ds : List Char) :
    (c :: cs).isPrefixOf? (d :: ds) = if c == d then cs.isPrefixOf? ds else none := rfl

end UpdatePlanner.Text
