import UpdatePlanner.Proofs.Requirement.Rendering
import UpdatePlanner.Proofs.Version.Boundary
import UpdatePlanner.Proofs.Version.Order
import UpdatePlanner.Ignore.Range

/-!
# Ranges read as requirements

A range is handed on as text, and read again where versions are compared with it. Reading
recovers its two ends, provided that nothing in them delimits a constraint. It fails if the lower
end begins with a character of an operator, as the operator in front of it would become a longer
one.

## Main definitions

* `IsPlain text`: a text that a constraint can name as its version
* `Range.HasDottedEnds r`: the ends of a range are texts of parts
* `Range.Spans r segments`: the segments lie between the ends of a range

## Main results

* `Comparator.read?_symbol`: an operator and a plain text are read as they are written
* `Range.read?_render`: a range that can be read is read as its two ends
* `Range.HasDottedEnds.admits_iff_spans`: a range with such ends admits what it spans
-/

namespace UpdatePlanner

open Text

/-- A text without commas and white space, and not empty. -/
structure IsPlain (text : List Char) : Prop where
  ne_nil : text ≠ []
  plain : ∀ c ∈ text, c ≠ ',' ∧ isBlank c = false

theorem IsPlain.not_mem_comma {text : List Char} (h : IsPlain text) : ',' ∉ text := by
  intro hc
  exact (h.plain ',' hc).1 rfl

theorem IsPlain.text_read {text : String} (h : IsPlain text.toList) :
    (Version.read text).text = text := by
  rw [Version.read, trim_eq_self_of_not_blank fun c hc => (h.plain c hc).2, String.ofList_toList]

/-- A text of parts that can be told apart. -/
def Version.IsDotted (text : String) : Prop :=
  ∃ parts, Version.Dotted parts ∧ text = String.ofList (Version.withDots parts)

namespace Version.IsDotted

variable {text : String} (h : Version.IsDotted text)
include h

theorem isPlain : IsPlain text.toList := by
  obtain ⟨parts, hparts, rfl⟩ := h
  rw [String.toList_ofList]
  exact ⟨hparts.withDots_ne_nil, hparts.isPlain⟩

theorem update_read : (Version.read text).update = none := by
  obtain ⟨parts, hparts, rfl⟩ := h
  exact hparts.update_read

end Version.IsDotted

/-! ## One constraint -/

namespace Comparator

theorem read?_cons_blank (cs : List Char) : read? (' ' :: cs) = read? cs := by
  have htrim := trim_append_of_blank (List.forall_mem_singleton.mpr rfl : AllBlank [' '])
    (nofun : AllBlank []) cs
  rw [List.append_nil, List.singleton_append] at htrim
  rw [read?, read?, htrim]

section Symbol

variable (op : Operator) {text : List Char} (h : IsPlain text)
include h

theorem word?_cons_blank : word? (' ' :: text) = some text :=
  word?_eq_some_iff.mpr
    ⟨[' '], List.forall_mem_singleton.mpr rfl, rfl, h.ne_nil, fun c hc => (h.plain c hc).2⟩

/-- The operator is not taken for a longer one, as a blank stands behind it. -/
theorem cut?_symbol : cut? (op.symbol.toList ++ ' ' :: text) = some (op, text) := by
  refine cut?_symbol_append op ?_ (word?_cons_blank h)
  rintro c ⟨⟩
  rfl

theorem trim_symbol :
    trim (op.symbol.toList ++ ' ' :: text) = op.symbol.toList ++ ' ' :: text :=
  trim_symbol_append op [' '] h.ne_nil fun c hc => (h.plain c hc).2

/-- An operator and a plain text are read as they are written, unless the text begins with a
character of an operator. -/
theorem read?_symbol :
    read? (op.symbol.toList ++ ' ' :: text) =
      if text.head?.any Version.isOperatorChar then
        .error (.unknownOperator (String.ofList (op.symbol.toList ++ ' ' :: text)))
      else .ok ⟨op, Version.read (String.ofList text)⟩ := by
  have hne : (op.symbol.toList ++ ' ' :: text).isEmpty = false := by simp
  simp only [read?, trim_symbol op h, hne, cut?_symbol op h, Bool.false_eq_true, if_false]

/-- What is read begins with no character of an operator. -/
theorem eq_of_read?_symbol {c : Comparator}
    (hc : read? (op.symbol.toList ++ ' ' :: text) = .ok c) :
    (∀ c ∈ text.head?, Version.isOperatorChar c = false) ∧
      c = ⟨op, Version.read (String.ofList text)⟩ := by
  rw [read?_symbol op h] at hc
  split at hc
  · cases hc
  · next hop =>
    refine ⟨?_, (Except.ok.inj hc).symm⟩
    intro c hc
    rw [hc] at hop
    simpa using hop

end Symbol

end Comparator

/-! ## Both ends -/

namespace Range

/-- The constraint on the upper end, as it stands behind the comma. -/
def upperConstraint (upper : String) : List Char :=
  ' ' :: (Operator.less.symbol.toList ++ ' ' :: upper.toList)

theorem eq_of_read?_upperConstraint {upper : String} (h : IsPlain upper.toList) {c : Comparator}
    (hc : Comparator.read? (upperConstraint upper) = .ok c) : c = ⟨.less, Version.read upper⟩ := by
  rw [upperConstraint, Comparator.read?_cons_blank] at hc
  obtain ⟨-, rfl⟩ := Comparator.eq_of_read?_symbol .less h hc
  rw [String.ofList_toList]

/-- Constraints on upper ends are read as these ends. -/
theorem eq_of_map_read?_upperConstraint {uppers : List String}
    (h : ∀ upper ∈ uppers, IsPlain upper.toList) {cs : List Comparator}
    (hcs : (uppers.map upperConstraint).map Comparator.read? = cs.map .ok) :
    cs = uppers.map fun upper => ⟨.less, Version.read upper⟩ := by
  induction uppers generalizing cs with
  | nil => exact List.map_eq_nil_iff.mp hcs.symm
  | cons upper uppers ih =>
    cases cs with
    | nil => cases hcs
    | cons c cs =>
      rw [List.forall_mem_cons] at h
      simp only [List.map_cons, List.cons.injEq] at hcs
      rw [eq_of_read?_upperConstraint h.1 hcs.1, ih h.2 hcs.2, List.map_cons]

theorem toList_render (r : Range) :
    r.render.toList = Operator.atLeast.symbol.toList ++ ' ' :: (r.lower.toList ++
      r.upper.elim [] fun upper => ',' :: upperConstraint upper) := by
  cases hu : r.upper <;> simp [render, hu, upperConstraint, Operator.symbol]

/-- A range is no blank text. -/
theorem isEmpty_trim_render (r : Range) : (trim r.render.toList).isEmpty = false := by
  rw [List.isEmpty_eq_false_iff, ne_eq, trim_eq_nil_iff]
  intro hblank
  exact absurd (hblank '>' (by simp [toList_render, Operator.symbol])) (by decide)

section Read

variable {r : Range} (hlower : IsPlain r.lower.toList)
  (hupper : ∀ upper ∈ r.upper, IsPlain upper.toList)
include hlower hupper

/-- The comma is the only one. -/
theorem splitOn_render :
    r.render.toList.splitOn ',' =
      (Operator.atLeast.symbol.toList ++ ' ' :: r.lower.toList) ::
        r.upper.toList.map upperConstraint := by
  have hfirst : ',' ∉ Operator.atLeast.symbol.toList ++ ' ' :: r.lower.toList := by
    simp [Operator.symbol, hlower.not_mem_comma]
  rw [toList_render]
  cases hu : r.upper with
  | none => simpa using List.splitOn_eq_singleton hfirst
  | some upper =>
    have hsecond : ',' ∉ upperConstraint upper := by
      simp [upperConstraint, Operator.symbol, (hupper upper hu).not_mem_comma]
    simp only [Option.elim_some, Option.toList_some, List.map_cons, List.map_nil]
    rw [← List.cons_append, ← List.append_assoc,
      List.splitOn_append_cons_self_of_not_mem hfirst, List.splitOn_eq_singleton hsecond]

/-- **A range that can be read is read as its two ends**, and its lower end begins with no
character of an operator. -/
theorem read?_render {q : Requirement} (hq : Requirement.read? r.render = .ok q) :
    (∀ c ∈ r.lower.toList.head?, Version.isOperatorChar c = false) ∧
      q = ⟨⟨.atLeast, Version.read r.lower⟩ ::
        r.upper.toList.map fun upper => ⟨.less, Version.read upper⟩⟩ := by
  simp only [Requirement.read?, isEmpty_trim_render, Bool.false_eq_true, if_false] at hq
  split at hq
  · next cs hcs =>
    obtain rfl : ⟨cs⟩ = q := Except.ok.inj hq
    rw [splitOn_render hlower hupper, mapM_eq_ok_iff] at hcs
    cases cs with
    | nil => cases hcs
    | cons c cs =>
      rw [List.map_cons, List.map_cons, List.cons.injEq] at hcs
      obtain ⟨hop, rfl⟩ := Comparator.eq_of_read?_symbol .atLeast hlower hcs.1
      have hrest : cs = r.upper.toList.map fun upper => ⟨.less, Version.read upper⟩ := by
        apply eq_of_map_read?_upperConstraint ?_ hcs.2
        intro upper hu
        exact hupper upper (Option.mem_toList.mp hu)
      exact ⟨hop, by rw [hrest, String.ofList_toList]⟩
  · cases hq

end Read

/-! ## Ends of parts -/

/-- Both ends are texts of parts that can be told apart. -/
structure HasDottedEnds (r : Range) : Prop where
  lower : Version.IsDotted r.lower
  upper : ∀ upper ∈ r.upper, Version.IsDotted upper

/-- The segments lie between the ends of the range. -/
def Spans (r : Range) (segments : List Segment) : Prop :=
  Segment.orderAll segments (Version.read r.lower).segments ≠ .lt ∧
    ∀ upper ∈ r.upper, Segment.orderAll segments (Version.read upper).segments = .lt

namespace HasDottedEnds

variable {r : Range} (h : r.HasDottedEnds) {q : Requirement}
  (hq : Requirement.read? r.render = .ok q)
include h hq

theorem isOperatorChar_lower :
    ∀ c ∈ r.lower.toList.head?, Version.isOperatorChar c = false :=
  (read?_render h.lower.isPlain (fun upper hu => (h.upper upper hu).isPlain) hq).1

/-- **A range of dotted ends that can be read admits the versions that it spans**, whatever
their update numbers. -/
theorem admits_iff_spans (v : Version) : q.admits v = true ↔ r.Spans v.segments := by
  obtain ⟨-, rfl⟩ :=
    read?_render h.lower.isPlain (fun upper hu => (h.upper upper hu).isPlain) hq
  have hadmits : (Requirement.mk (⟨.atLeast, Version.read r.lower⟩ ::
      r.upper.toList.map fun upper => ⟨.less, Version.read upper⟩)).admits v = true ↔
      (compare v (Version.read r.lower)).isGE = true ∧
        ∀ upper ∈ r.upper, (compare v (Version.read upper)).isLT = true := by
    simp [Requirement.admits, Requirement.boundedBelow, Operator.boundsBelow,
      Comparator.admits, Operator.relates]
  rw [hadmits, Version.isGE_iff_of_update_eq_none h.lower.update_read, Spans]
  apply and_congr_right
  intro _
  apply forall_congr'
  intro upper
  apply imp_congr_right
  intro hu
  exact Version.isLT_iff_of_update_eq_none (h.upper upper hu).update_read

end HasDottedEnds

end Range

end UpdatePlanner
