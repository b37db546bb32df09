import UpdatePlanner.Proofs.Requirement.Grammar

/-!
# Requirements that are written and read again

A requirement is written with one blank behind each operator and behind each comma, whatever stood
there in the text that it was read from. The versions are written as they were given, with their
marks, underscores and odd characters. So it is for the grammar to say that nothing in a version
delimits a constraint: what a constraint names is a word, and a word that stands between commas holds
none.

## Main definitions

* `Comparator.IsWritable`: a comparator whose version was given by a word without commas

## Main results

* `Comparator.Written.isWritable`: the comparators of a requirement are such
* `Requirement.read?_render_of_isWritable`: such comparators are found again in their text
* `Requirement.read?_render_of_read?`: a requirement that was read is read again from its own text
-/

namespace UpdatePlanner

open Text

/-! ## One comparator -/

namespace Comparator

/-- A comparator that can be written among others: its version was given by a word without commas. -/
def IsWritable (c : Comparator) : Prop :=
  ∃ word, IsWord word ∧ ',' ∉ word ∧ c.version = Version.read (String.ofList word)

variable {c : Comparator} {cs : List Char}

/-- What stands between commas denotes a comparator that can be written. -/
theorem Written.isWritable (h : Written cs c) (hcomma : ',' ∉ cs) : c.IsWritable := by
  cases h with
  | bare hbefore hword hafter => exact ⟨_, hword, by simp_all, rfl⟩
  | operator op hbefore hbetween hword hafter => exact ⟨_, hword, by simp_all, rfl⟩

namespace IsWritable

variable (h : c.IsWritable)
include h

/-- The version is written as it was given. -/
theorem exists_toList_render :
    ∃ word, IsWord word ∧ ',' ∉ word ∧ c.version = Version.read (String.ofList word) ∧
      c.render.toList = c.op.symbol.toList ++ ([' '] ++ word) := by
  obtain ⟨word, hword, hcomma, hversion⟩ := h
  have htext : c.version.text.toList = word := by
    rw [hversion, Version.read, String.toList_ofList, String.toList_ofList, hword.trim_eq]
  refine ⟨word, hword, hcomma, hversion, ?_⟩
  simp [render, htext]

/-- The text of a comparator is a constraint that denotes it, and white space in front of it does
not matter. -/
theorem written_render (before : List Char) (hbefore : AllBlank before) :
    Written (before ++ c.render.toList) c := by
  obtain ⟨word, hword, -, hversion, htext⟩ := h.exists_toList_render
  have hbetween : AllBlank [' '] := List.forall_mem_singleton.mpr rfl
  have hafter : AllBlank [] := nofun
  have hw := Written.operator c.op hbefore hbetween hword hafter
  rw [← hversion, ← htext, List.append_nil] at hw
  exact hw

theorem comma_not_mem_render : ',' ∉ c.render.toList := by
  obtain ⟨word, -, hcomma, -, htext⟩ := h.exists_toList_render
  rw [htext]
  cases c.op <;> simp [Operator.symbol, hcomma]

end IsWritable

end Comparator

/-! ## All comparators -/

/-- A blank behind a comma belongs to the text that follows. -/
theorem intercalate_comma_blank (x : List Char) (xs : List (List Char)) :
    [',', ' '].intercalate (x :: xs) = [','].intercalate (x :: xs.map (' ' :: ·)) := by
  induction xs generalizing x with
  | nil => simp
  | cons y ys ih => simp [ih]

namespace Requirement

/-- The commas between the constraints are the only ones. -/
theorem splitOn_render {c : Comparator} {cs : List Comparator}
    (h : ∀ d ∈ c :: cs, d.IsWritable) :
    (render ⟨c :: cs⟩).toList.splitOn ',' =
      c.render.toList :: cs.map fun d => ' ' :: d.render.toList := by
  have htext : (render ⟨c :: cs⟩).toList =
      [','].intercalate (c.render.toList :: cs.map fun d => ' ' :: d.render.toList) := by
    have hsep : ", ".toList = [',', ' '] := rfl
    rw [render, String.toList_intercalate, hsep, List.map_cons, List.map_cons,
      intercalate_comma_blank, List.map_map, List.map_map]
    rfl
  rw [htext]
  refine List.splitOn_intercalate ',' ?_ (List.cons_ne_nil _ _)
  rw [List.forall_mem_cons] at h ⊢
  refine ⟨h.1.comma_not_mem_render, ?_⟩
  intro piece hpiece
  obtain ⟨d, hd, rfl⟩ := List.mem_map.mp hpiece
  simpa using (h.2 d hd).comma_not_mem_render

/-- **Comparators that can be written are found again in their text**, if there is one at all. -/
theorem read?_render_of_isWritable {r : Requirement} (hne : r.comparators ≠ [])
    (h : ∀ c ∈ r.comparators, c.IsWritable) : read? r.render = .ok r := by
  obtain ⟨comparators⟩ := r
  obtain ⟨c, cs, rfl⟩ := List.exists_cons_of_ne_nil hne
  have hwritten : List.Forall₂ Comparator.Written
      ((render ⟨c :: cs⟩).toList.splitOn ',') (c :: cs) := by
    rw [splitOn_render h]
    rw [List.forall_mem_cons] at h
    refine .cons (h.1.written_render [] nofun) ?_
    rw [List.forall₂_map_left_iff, List.forall₂_same]
    intro d hd
    exact (h.2 d hd).written_render [' '] (List.forall_mem_singleton.mpr rfl)
  have hblank : ¬ AllBlank (render ⟨c :: cs⟩).toList :=
    fun hblank => not_written_of_allBlank hblank hwritten
  exact (read?_eq_ok_iff_of_not_allBlank hblank).mpr hwritten

section Read

variable {text : String} {r : Requirement} (h : read? text = .ok r)
include h

/-- A requirement has a comparator. -/
theorem comparators_ne_nil_of_read? : r.comparators ≠ [] := by
  by_cases hblank : AllBlank text.toList
  · obtain rfl : any = r := Except.ok.inj ((read?_of_allBlank hblank).symm.trans h)
    exact List.cons_ne_nil _ _
  · have hparts := (read?_eq_ok_iff_of_not_allBlank hblank).mp h
    intro hnil
    rw [hnil, List.forall₂_nil_right_iff] at hparts
    exact List.splitOn_ne_nil ',' _ hparts

/-- The comparators of a requirement that was read can be written. -/
theorem isWritable_of_read? : ∀ c ∈ r.comparators, c.IsWritable := by
  intro c hc
  by_cases hblank : AllBlank text.toList
  · obtain rfl : any = r := Except.ok.inj ((read?_of_allBlank hblank).symm.trans h)
    obtain rfl : c = ⟨.atLeast, zero⟩ := List.mem_singleton.mp hc
    have hzero : IsWord ['0'] := by
      refine ⟨List.cons_ne_nil _ _, List.forall_mem_singleton.mpr rfl, ?_⟩
      rintro x ⟨⟩
      rfl
    exact ⟨['0'], hzero, by simp, rfl⟩
  · have hparts := mapM_read?_eq_ok_iff.mpr ((read?_eq_ok_iff_of_not_allBlank hblank).mp h)
    obtain ⟨part, hpart, hread⟩ := exists_mem_of_mem_mapM hparts hc
    refine (Comparator.read?_eq_ok_iff_written.mp hread).isWritable ?_
    rw [List.splitOn_eq_splitOnP] at hpart
    intro hcomma
    exact absurd (splitOnP_clean hpart ',' hcomma) (by decide)

/-- **A requirement that was read is read again from its own text**: with the same operators and the
same versions, down to their texts, segments and update numbers. So it is written alike the next time,
and satisfied by the same versions. -/
theorem read?_render_of_read? : read? r.render = .ok r :=
  read?_render_of_isWritable (comparators_ne_nil_of_read? h) (isWritable_of_read? h)

end Read

/-- A requirement whose versions have a mark, an update number, an operator's character that is not
the first one, and nothing but an underscore. -/
def oddRequirement : Requirement :=
  ⟨[⟨.atLeast, Version.read "v1.2_3"⟩, ⟨.notEqual, Version.read "2.0~β"⟩,
    ⟨.equal, Version.read "_"⟩]⟩

/-- It is read from a text with no blanks behind its operators, and then from
`>= v1.2_3, != 2.0~β, = _`. -/
theorem read?_render_of_read?_oddRequirement :
    read? " >=v1.2_3 ,!=2.0~β,_" = .ok oddRequirement ∧
      oddRequirement.render = ">= v1.2_3, != 2.0~β, = _" ∧
      read? oddRequirement.render = .ok oddRequirement := by
  have hread : read? " >=v1.2_3 ,!=2.0~β,_" = .ok oddRequirement := by with_unfolding_all decide
  exact ⟨hread, by decide, read?_render_of_read? hread⟩

end Requirement

end UpdatePlanner
