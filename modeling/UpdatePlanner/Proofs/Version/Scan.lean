import Mathlib.Data.List.TakeWhile
import UpdatePlanner.Proofs.Text.Cutting
import UpdatePlanner.Version.Boundary

/-!
# Segments of cut and joined texts

A character that is neither a letter nor a digit only separates segments. So a text has the
segments of its pieces, wherever it is cut at such characters, and a join of pieces has the
segments of the pieces.

## Main definitions

* `IsGap c`: `c` is neither a letter nor a digit
* `IsRun s`: `s` is a segment that a text can have

## Main results

* `scan_append_gap`: segments do not reach across a gap
* `flatMap_scan_splitOnP`, `scan_intercalate`: cutting and joining at gaps keep the segments
* `scan_digits_append`, `scan_letters_append`: a run is one segment, whatever follows it outside
  its class
* `scan_digits`, `scan_letters`: a text of digits is one number, and one of letters is one word
-/

namespace UpdatePlanner.Segment

open Text

/-- A character that belongs to no segment. -/
def IsGap (c : Char) : Prop := c.isDigit = false ∧ c.isAlpha = false

theorem isGap_dot : IsGap '.' := ⟨rfl, rfl⟩

theorem isGap_underscore : IsGap '_' := ⟨rfl, rfl⟩

theorem not_isGap_of_isDigit {c : Char} (h : c.isDigit = true) : ¬ IsGap c := by
  intro hg
  exact Bool.false_ne_true (hg.1.symm.trans h)

theorem not_isGap_of_mem_digits {cs : List Char} (h : isDigits cs = true) :
    ∀ c ∈ cs, ¬ IsGap c := by
  intro c hc
  exact not_isGap_of_isDigit ((isDigits_iff.mp h).2 c hc)

theorem notMem_of_isDigits {cs : List Char} (h : isDigits cs = true) {c : Char} (hc : IsGap c) :
    c ∉ cs := by
  intro hmem
  exact not_isGap_of_mem_digits h c hmem hc

theorem not_isGap_of_isAlpha {c : Char} (h : c.isAlpha = true) : ¬ IsGap c := by
  intro hg
  exact Bool.false_ne_true (hg.2.symm.trans h)

/-- A digit is no letter. -/
theorem isAlpha_eq_false_of_isDigit {c : Char} (h : c.isDigit = true) : c.isAlpha = false := by
  apply Bool.eq_false_iff.mpr
  intro ha
  exact Bool.false_ne_true ((isDigit_eq_false_of_isAlpha ha).symm.trans h)

/-- White space is no part of a segment. -/
theorem isGap_of_isBlank {c : Char} (h : isBlank c = true) : IsGap c := by
  have h0 : '0'.val.toNat = 48 := rfl
  have h9 : '9'.val.toNat = 57 := rfl
  have hA : 'A'.val.toNat = 65 := rfl
  have hZ : 'Z'.val.toNat = 90 := rfl
  have ha : 'a'.val.toNat = 97 := rfl
  have hz : 'z'.val.toNat = 122 := rfl
  have hc : c.toNat = c.val.toNat := rfl
  -- Both classes are intervals of code points, and no blank lies in one of them.
  simp only [isBlank, Bool.or_eq_true, Bool.and_eq_true, decide_eq_true_eq, beq_iff_eq] at h
  unfold IsGap Char.isDigit Char.isAlpha Char.isUpper Char.isLower
  simp only [ge_iff_le, UInt32.le_iff_toNat_le, Bool.and_eq_false_iff, Bool.or_eq_false_iff,
    decide_eq_false_iff_not]
  omega

/-- Letters and digits are no white space. -/
theorem isBlank_eq_false {c : Char} (h : ¬ IsGap c) : isBlank c = false := by
  apply Bool.eq_false_iff.mpr
  intro hb
  exact h (isGap_of_isBlank hb)

theorem isGap_of_isOperatorChar {c : Char} (h : Version.isOperatorChar c = true) : IsGap c := by
  simp only [Version.isOperatorChar, Bool.or_eq_true, beq_iff_eq] at h
  rcases h with (((rfl | rfl) | rfl) | rfl) | rfl <;> exact ⟨rfl, rfl⟩

theorem isGap_of_isPartSeparator {c : Char} (h : Version.isPartSeparator c = true) : IsGap c := by
  simp only [Version.isPartSeparator, Bool.or_eq_true, beq_iff_eq] at h
  rcases h with (rfl | rfl) | h
  · exact ⟨rfl, rfl⟩
  · exact ⟨rfl, rfl⟩
  · exact isGap_of_isBlank h

/-- Letters and digits separate no parts. -/
theorem isPartSeparator_eq_false {c : Char} (h : ¬ IsGap c) :
    Version.isPartSeparator c = false := by
  apply Bool.eq_false_iff.mpr
  intro hsep
  exact h (isGap_of_isPartSeparator hsep)

/-- Segments do not reach across a gap. -/
theorem scan_append_gap {c : Char} (hc : IsGap c) (cs ds : List Char) :
    scan (cs ++ c :: ds) = scan cs ++ scan ds := by
  -- A run of digits or letters in front of the gap ends there, and so do the cases of `scan`.
  fun_induction scan cs with
  | case1 => rw [List.nil_append, scan_separator hc.1 hc.2, List.nil_append]
  | case2 e es he ih =>
    rw [List.cons_append, scan_digit he, takeWhile_append_cons_of_neg hc.1,
      dropWhile_append_cons_of_neg hc.1, ih, List.cons_append]
  | case3 e es _ he ih =>
    rw [List.cons_append, scan_letter he, takeWhile_append_cons_of_neg hc.2,
      dropWhile_append_cons_of_neg hc.2, ih, List.cons_append]
  | case4 e es hd ha ih =>
    rw [List.cons_append, scan_separator (by simpa using hd) (by simpa using ha), ih]

/-- A segment that a text can have: a number that can be held, or a word of letters. -/
def IsRun : Segment → Prop
  | number n => n ≤ maxNumber
  | word w => w.toList ≠ [] ∧ ∀ c ∈ w.toList, c.isAlpha = true

instance : DecidablePred IsRun
  | number n => inferInstanceAs (Decidable (n ≤ maxNumber))
  | word w => decidable_of_iff (w.toList ≠ [] ∧ w.toList.all Char.isAlpha = true) <| by
      rw [List.all_eq_true]
      rfl

theorem isRun_word_ofList {cs : List Char} :
    (word (String.ofList cs)).IsRun ↔ cs ≠ [] ∧ ∀ c ∈ cs, c.isAlpha = true := by
  simp only [IsRun, String.toList_ofList]

/-- The segments of a text are runs. -/
theorem isRun_of_mem_scan {cs : List Char} {s : Segment} (h : s ∈ scan cs) : s.IsRun := by
  fun_induction scan cs with
  | case1 => cases h
  | case2 e es _ ih =>
    rcases List.mem_cons.mp h with rfl | h
    · exact clamp_le _
    · exact ih h
  | case3 e es _ he ih =>
    rcases List.mem_cons.mp h with rfl | h
    · rw [isRun_word_ofList, List.forall_mem_cons]
      exact ⟨List.cons_ne_nil _ _, he, List.all_eq_true.mp List.all_takeWhile⟩
    · exact ih h
  | case4 e es _ _ ih => exact ih h

/-- A word begins with a letter. -/
theorem exists_letter_of_mem_scan {cs : List Char} {w : String} (h : .word w ∈ scan cs) :
    ∃ c ds, w = String.ofList (c :: ds) ∧ c.isAlpha = true := by
  obtain ⟨hne, hletters⟩ : (word w).IsRun := isRun_of_mem_scan h
  obtain ⟨c, ds, hw⟩ := List.exists_cons_of_ne_nil hne
  refine ⟨c, ds, ?_, hletters c (hw ▸ List.mem_cons_self)⟩
  rw [← hw, String.ofList_toList]

/-- Gaps in front of a text add no segment. -/
theorem scan_gaps_append {xs : List Char} (h : ∀ c ∈ xs, IsGap c) (cs : List Char) :
    scan (xs ++ cs) = scan cs := by
  induction xs with
  | nil => rfl
  | cons x xs ih =>
    rw [List.forall_mem_cons] at h
    rw [List.cons_append, scan_separator h.1.1 h.1.2, ih h.2]

theorem scan_eq_nil_of_gaps {xs : List Char} (h : ∀ c ∈ xs, IsGap c) : scan xs = [] := by
  simpa using scan_gaps_append h []

/-- A text with a letter or a digit in it has segments. -/
theorem scan_ne_nil {cs : List Char} (h : ∃ c ∈ cs, c.isAlphanum = true) : scan cs ≠ [] := by
  obtain ⟨c, hc, hrun⟩ := h
  fun_induction scan cs with
  | case1 => cases hc
  | case2 => exact List.cons_ne_nil _ _
  | case3 => exact List.cons_ne_nil _ _
  | case4 e es hd ha ih =>
    -- The gap in front is not the one, so it stands further on.
    rcases List.mem_cons.mp hc with rfl | hc
    · simp [Char.isAlphanum, hd, ha] at hrun
    · exact ih hc

/-- Cutting a text at gaps keeps its segments. -/
theorem flatMap_scan_splitOnP {q : Char → Bool} (hq : ∀ c, q c = true → IsGap c)
    (cs : List Char) : (cs.splitOnP q).flatMap scan = scan cs := by
  -- By induction on the length, as a separator leaves a shorter text on either side.
  induction hn : cs.length using Nat.strongRecOn generalizing cs with
  | ind n ih =>
    by_cases h : ∃ c ∈ cs, q c = true
    · obtain ⟨c, hc, hqc⟩ := h
      obtain ⟨xs, ys, rfl⟩ := List.append_of_mem hc
      simp only [List.length_append, List.length_cons] at hn
      rw [List.splitOnP_append_cons xs ys hqc, List.flatMap_append, scan_append_gap (hq c hqc),
        ih xs.length (by omega) xs rfl, ih ys.length (by omega) ys rfl]
    · simp only [not_exists, not_and, Bool.not_eq_true] at h
      rw [List.splitOnP_eq_singleton h, List.flatMap_singleton]

/-- Pieces joined with dots keep their segments. -/
theorem scan_intercalate (pieces : List (List Char)) :
    scan (['.'].intercalate pieces) = pieces.flatMap scan := by
  induction pieces with
  | nil => simp
  | cons p ps ih =>
    cases ps with
    | nil => rw [List.intercalate_singleton, List.flatMap_singleton]
    | cons r rs =>
      rw [List.intercalate_cons_cons, List.append_assoc, List.singleton_append,
        scan_append_gap isGap_dot, ih, ← List.flatMap_cons]

/-- A run of digits is a number, if no digit follows it. -/
theorem scan_digits_append {ds cs : List Char} (h : isDigits ds = true)
    (hend : ∀ c ∈ cs.head?, c.isDigit = false) :
    scan (ds ++ cs) = number (clamp (digitsValue ds)) :: scan cs := by
  obtain ⟨d, ds, rfl, hd, hds⟩ := exists_cons_of_isDigits h
  rw [List.cons_append, scan_digit hd, takeWhile_run_append hds hend,
    dropWhile_run_append hds hend]

/-- A run of letters is a word, if no letter follows it. -/
theorem scan_letters_append {ls cs : List Char} (hne : ls ≠ [])
    (hall : ∀ c ∈ ls, c.isAlpha = true) (hend : ∀ c ∈ cs.head?, c.isAlpha = false) :
    scan (ls ++ cs) = word (String.ofList ls) :: scan cs := by
  obtain ⟨l, ls, rfl⟩ := List.exists_cons_of_ne_nil hne
  rw [List.forall_mem_cons] at hall
  rw [List.cons_append, scan_letter hall.1, takeWhile_run_append hall.2 hend,
    dropWhile_run_append hall.2 hend]

/-- A text of digits is one number. -/
theorem scan_digits {cs : List Char} (h : isDigits cs = true) :
    scan cs = [number (clamp (digitsValue cs))] := by
  have hnil : ∀ c ∈ ([] : List Char).head?, c.isDigit = false := by simp
  rw [← List.append_nil cs, scan_digits_append h hnil, scan_nil, List.append_nil]

/-- A text of letters is one word. -/
theorem scan_letters {cs : List Char} (hne : cs ≠ []) (hall : ∀ c ∈ cs, c.isAlpha = true) :
    scan cs = [word (String.ofList cs)] := by
  have hnil : ∀ c ∈ ([] : List Char).head?, c.isAlpha = false := by simp
  rw [← List.append_nil cs, scan_letters_append hne hall hnil, scan_nil, List.append_nil]

end UpdatePlanner.Segment
