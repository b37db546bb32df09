import UpdatePlanner.Proofs.Version.Boundary
import UpdatePlanner.Proofs.Version.Runs

/-!
# Numbered versions

Most versions are decimal numbers with dots between them, perhaps with a mark in front and an
update number behind. Their two slicings agree: the parts are the numerals, and the segments are
the numbers that these stand for.

## Main definitions

* `NumberedVersion`: the numerals of such a version, and what stands around them
* `NumberedVersion.text`: the text that they are written as
* `NumberedVersion.numbers`: the numbers that the numerals stand for

## Main results

* `NumberedVersion.partsOf_text`, `NumberedVersion.segments_read_text`: the parts and the segments
* `NumberedVersion.raisePart_numeral`: every numeral can be raised
-/

namespace UpdatePlanner

open Text Segment Version

/-- A version of decimal numbers with dots between them. A mark may stand in front of it, and an
update number of any size behind it. -/
structure NumberedVersion where
  mark : Option Char
  first : List Char
  rest : List (List Char)
  update : Option (List Char)
  isMark : ∀ c ∈ mark, c = 'v' ∨ c = 'V'
  isDigits_numeral : ∀ n ∈ first :: rest, isDigits n = true
  /-- The next number and the one after it can be held. -/
  value_numeral : ∀ n ∈ first :: rest, digitsValue n + 2 ≤ maxNumber
  isDigits_update : ∀ u ∈ update, isDigits u = true

namespace NumberedVersion

variable (v : NumberedVersion)

def numerals : List (List Char) := v.first :: v.rest

/-- The text without the mark. -/
def body : List Char :=
  withDots v.numerals ++ v.update.elim [] ('_' :: ·)

def text : String := String.ofList (v.mark.toList ++ v.body)

/-- The numbers that the numerals stand for. -/
def numbers : List Nat := v.numerals.map digitsValue

def major : Nat := digitsValue v.first

/-- The second number, zero if there is none. -/
def minor : Nat := (v.rest.head?.map digitsValue).getD 0

theorem length_numbers : v.numbers.length = v.numerals.length := List.length_map ..

/-! ## The text -/

theorem exists_body_cons : ∃ d ds, v.body = d :: ds ∧ d.isDigit = true := by
  obtain ⟨d, ds, hfirst, hd, -⟩ :=
    exists_cons_of_isDigits (v.isDigits_numeral v.first List.mem_cons_self)
  obtain ⟨rest, hrest⟩ : ∃ rest, withDots v.numerals = d :: rest := by
    cases hr : v.rest with
    | nil => exact ⟨ds, by simp [numerals, hr, hfirst, withDots]⟩
    | cons n ns => exact ⟨_, by rw [numerals, hr, hfirst, withDots_cons_cons, List.cons_append]⟩
  exact ⟨d, _, by rw [body, hrest, List.cons_append], hd⟩

theorem dotted_numerals : Dotted v.numerals := by
  have halnum : ∀ n ∈ v.numerals, Alphanumeric n :=
    fun n hn => alphanumeric_of_isDigits (v.isDigits_numeral n hn)
  refine ⟨fun n hn => (halnum n hn).isPartSeparator, ?_⟩
  have hlast := List.getLast?_eq_some_getLast (l := v.numerals) (by simp [numerals])
  exact ⟨_, hlast, halnum _ (List.mem_of_getLast? hlast)⟩

theorem underscore_not_mem_withDots : '_' ∉ withDots v.numerals := by
  intro hc
  refine forall_mem_withDots (P := (· ≠ '_')) (by decide) ?_ '_' hc rfl
  rintro n hn c hc rfl
  exact notMem_of_isDigits (v.isDigits_numeral n hn) isGap_underscore hc

/-- The text has no white space. -/
theorem isBlank_eq_false : ∀ c ∈ v.mark.toList ++ v.body, isBlank c = false := by
  have hnumerals : ∀ c ∈ withDots v.numerals, isBlank c = false :=
    fun c hc => (v.dotted_numerals.isPlain c hc).2
  intro c hc
  rw [body, List.mem_append, List.mem_append] at hc
  rcases hc with hc | hc | hc
  · rcases v.isMark c (Option.mem_toList.mp hc) with rfl | rfl <;> rfl
  · exact hnumerals c hc
  · cases hu : v.update with
    | none => simp [hu] at hc
    | some u =>
      rw [hu, Option.elim_some, List.mem_cons] at hc
      rcases hc with rfl | hc
      · rfl
      · have hgap := not_isGap_of_mem_digits (v.isDigits_update u hu) c hc
        exact Segment.isBlank_eq_false hgap

theorem trim_text : trim v.text.toList = v.mark.toList ++ v.body := by
  rw [text, String.toList_ofList]
  apply trim_eq_self
  · intro c hc
    exact v.isBlank_eq_false c (List.mem_of_mem_head? hc)
  · intro c hc
    exact v.isBlank_eq_false c (List.mem_of_getLast? hc)

theorem dropMark_text : dropMark (v.mark.toList ++ v.body) = v.body := by
  obtain ⟨d, ds, hbody, hd⟩ := v.exists_body_cons
  rw [hbody]
  cases hm : v.mark with
  | none => exact dropMark_cons_digit hd ds
  | some m => exact dropMark_mark (v.isMark m hm) hd ds

theorem splitUpdate_body : (splitUpdate v.body).1 = withDots v.numerals := by
  unfold body
  cases hu : v.update with
  | none => rw [Option.elim_none, List.append_nil, v.dotted_numerals.splitUpdate_withDots]
  | some u =>
    rw [Option.elim_some, splitUpdate_append_underscore_digits (v.isDigits_update u hu)
      v.dotted_numerals.withDots_ne_nil v.underscore_not_mem_withDots]

theorem release_text : release v.text = withDots v.numerals := by
  rw [release, trim_text, dropMark_text, splitUpdate_body]

theorem beginsWithNumber_text : BeginsWithNumber (trim v.text.toList) := by
  obtain ⟨d, ds, hbody, hd⟩ := v.exists_body_cons
  rw [trim_text, hbody]
  cases hm : v.mark with
  | none => exact .digit hd ds
  | some m => exact .mark (v.isMark m hm) hd ds

theorem plainRelease_text : plainRelease v.text = withDots v.numerals := by
  rw [plainRelease_eq_release v.beginsWithNumber_text.not_isGap_head, release_text]

/-! ## Parts and segments -/

/-- **The parts are the numerals.** -/
theorem partsOf_text : partsOf v.text.toList = v.numerals := by
  rw [partsOf_eq, plainRelease_text, withDots,
    splitOnP_intercalate rfl v.dotted_numerals.ne_nil v.dotted_numerals.clean,
    List.filter_eq_self]
  intro n hn
  simpa using (isDigits_iff.mp (v.isDigits_numeral n hn)).1

section Numeral

variable {v} {n : List Char} (hn : n ∈ v.numerals)
include hn

theorem scan_numeral : scan n = [.number (digitsValue n)] := by
  rw [scan_digits (v.isDigits_numeral n hn), clamp_eq_self]
  have := v.value_numeral n hn
  omega

/-- **Every numeral can be raised.** -/
theorem raisePart_numeral : raisePart n = some (digits (digitsValue n + 1)) := by
  have := v.value_numeral n hn
  exact raisePart_of_isDigits (v.isDigits_numeral n hn) (by omega)

end Numeral

/-- Numerals have the numbers that they stand for as segments. -/
theorem flatMap_scan_of_subset {ns : List (List Char)} (h : ns ⊆ v.numerals) :
    ns.flatMap scan = (ns.map digitsValue).map .number := by
  induction ns with
  | nil => rfl
  | cons n ns ih =>
    rw [List.cons_subset] at h
    rw [List.flatMap_cons, scan_numeral h.1, ih h.2, List.singleton_append, List.map_cons,
      List.map_cons]

/-- **The segments are the numbers.** -/
theorem segments_read_text : (Version.read v.text).segments = v.numbers.map .number := by
  rw [v.beginsWithNumber_text.segments_read, partsOf_text,
    v.flatMap_scan_of_subset (List.Subset.refl _), numbers]

/-- The version `1.2.3`. -/
def oneTwoThree : NumberedVersion where
  mark := none
  first := ['1']
  rest := [['2'], ['3']]
  update := none
  isMark := by simp
  isDigits_numeral := by decide
  value_numeral := by decide
  isDigits_update := by simp

end NumberedVersion

end UpdatePlanner
