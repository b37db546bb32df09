import UpdatePlanner.Plan.Planner
import UpdatePlanner.Proofs.Ignore.Derivation

/-!
# Reading derived ranges

A derived range is written as text and read again, and reading is meant to find the two ends that
were written. Parts hold neither commas nor white space, so only one character can go wrong: the
first one. An operator in front of a version is dropped before its parts are cut, but one that
stands behind a comma or a dot is not. It begins the first part then, and with it every boundary.

## Main definitions

* `Range.requirement`: the comparators that a range is written from
* `Version.hidesOperator`: a version whose first part begins with a character of an operator
* `IgnoreCondition.Derives`: the ranges that a condition derives for a dependency

## Main results

* `Version.beginsWithOperator_nextBoundary`: boundaries begin with an operator if the first part
  does
* `Range.read?_render_of_ofKind`: a derived range is read as it was written, or not at all
* `IgnoreCondition.read?_of_mem_ignored`: what becomes of the ranges of a condition
-/

namespace UpdatePlanner

open Text Segment

/-! ## Beginnings -/

namespace Version

/-- Whether a text begins with a character that operators are made of. -/
def beginsWithOperator (cs : List Char) : Bool :=
  cs.head?.any isOperatorChar

theorem beginsWithOperator_eq_false_iff {cs : List Char} :
    beginsWithOperator cs = false ↔ ∀ c ∈ cs.head?, isOperatorChar c = false := by
  cases cs <;> simp [beginsWithOperator]

theorem beginsWithOperator_cons_of_not_isGap {c : Char} (h : ¬ IsGap c) (cs : List Char) :
    beginsWithOperator (c :: cs) = false := by
  apply Bool.eq_false_iff.mpr
  intro hop
  exact h (isGap_of_isOperatorChar hop)

theorem beginsWithOperator_of_isDigits {cs : List Char} (h : isDigits cs = true) :
    beginsWithOperator cs = false := by
  obtain ⟨d, ds, rfl, hd, -⟩ := exists_cons_of_isDigits h
  exact beginsWithOperator_cons_of_not_isGap (not_isGap_of_isDigit hd) ds

/-- A mark is no operator, and neither is the digit behind it. -/
theorem beginsWithOperator_dropMark (cs : List Char) :
    beginsWithOperator (dropMark cs) = beginsWithOperator cs := by
  rcases dropMark_cases cs with h | ⟨m, d, ds, rfl, hm, hd, h⟩ <;> rw [h]
  rw [beginsWithOperator_cons_of_not_isGap (not_isGap_of_isDigit hd),
    beginsWithOperator_cons_of_not_isGap (not_isGap_of_isAlpha hm)]

theorem beginsWithOperator_withDots {p : List Char} (hne : p ≠ []) (ps : List (List Char)) :
    beginsWithOperator (withDots (p :: ps)) = beginsWithOperator p := by
  obtain ⟨c, cs, rfl⟩ := List.exists_cons_of_ne_nil hne
  cases ps with
  | nil => simp [withDots]
  | cons r rs => rw [withDots_cons_cons, List.cons_append]; rfl

/-! ## Hidden operators -/

/-- Whether an operator stands behind the separators at the beginning of a version, where it is
not dropped. -/
def hidesOperator (version : String) : Bool :=
  beginsWithOperator
    (((trim version.toList).dropWhile isIntroduction).dropWhile isPartSeparator)

/-- The first piece that is not empty begins behind the separators. -/
theorem head?_of_filter_splitOnP {q : Char → Bool} {cs p : List Char} {ps : List (List Char)}
    (h : ((cs.splitOnP q).filter fun piece => !piece.isEmpty) = p :: ps) :
    p.head? = (cs.dropWhile q).head? := by
  induction cs with
  | nil => simp at h
  | cons c cs ih =>
    rw [List.splitOnP_cons_eq_if_modifyHead] at h
    by_cases hc : q c = true
    · rw [if_pos hc, List.filter_cons_of_neg (by simp)] at h
      rw [List.dropWhile_cons_of_pos hc]
      exact ih h
    · -- `c` begins the first piece, which is not empty then.
      obtain ⟨first, rest, hsplit⟩ := List.exists_cons_of_ne_nil (List.splitOnP_ne_nil q cs)
      rw [if_neg hc, hsplit, List.modifyHead_cons, List.filter_cons_of_pos (by simp)] at h
      obtain ⟨rfl, -⟩ := List.cons.inj h
      rw [List.dropWhile_cons_of_neg hc, List.head?_cons, List.head?_cons]

theorem head?_dropWhile_of_prefix {q : Char → Bool} {xs ys : List Char} {c : Char}
    (hbegins : xs <+: ys) (h : (xs.dropWhile q).head? = some c) :
    (ys.dropWhile q).head? = some c := by
  obtain ⟨zs, rfl⟩ := hbegins
  obtain ⟨rest, hrest⟩ := List.head?_eq_some_iff.mp h
  rw [List.dropWhile_append, hrest]
  rfl

/-- **The first part begins with an operator exactly if the version hides one.** -/
theorem beginsWithOperator_part {version : String} {p : List Char} {ps : List (List Char)}
    (hparts : partsOf version.toList = p :: ps) : beginsWithOperator p = hidesOperator version := by
  obtain ⟨c, cs, rfl⟩ := List.exists_cons_of_ne_nil (mem_partsOf (hparts ▸ List.mem_cons_self)).1
  unfold hidesOperator
  generalize hbare : (trim version.toList).dropWhile isIntroduction = bare
  have hhead : ((dropMark bare).dropWhile isPartSeparator).head? = some c := by
    rw [partsOf_eq, plainRelease, hbare] at hparts
    have hcut := Version.splitUpdate_prefix (dropMark bare)
    exact head?_dropWhile_of_prefix hcut (head?_of_filter_splitOnP hparts).symm
  rcases dropMark_cases bare with h | ⟨m, d, ds, rfl, hm, hd, h⟩ <;> rw [h] at hhead
  · simp [beginsWithOperator, hhead]
  · -- With a mark, the part begins with a digit, and the text with the mark.
    have hdsep := isPartSeparator_eq_false (not_isGap_of_isDigit hd)
    have hmsep := isPartSeparator_eq_false (not_isGap_of_isAlpha hm)
    rw [List.dropWhile_cons_of_neg (by simp [hdsep]), List.head?_cons, Option.some.injEq] at hhead
    rw [List.dropWhile_cons_of_neg (by simp [hmsep]), ← hhead,
      beginsWithOperator_cons_of_not_isGap (not_isGap_of_isDigit hd),
      beginsWithOperator_cons_of_not_isGap (not_isGap_of_isAlpha hm)]

/-! ## Beginnings of boundaries -/

/-- A boundary begins with the first part, or with the number that it is raised to. -/
theorem exists_boundaryLine_cons (p : List Char) (ps : List (List Char)) (depth : Nat)
    (side : Side) :
    ∃ q qs, boundaryLine (p :: ps) depth side = q :: qs ∧
      (q = p ∨ isDigits p = true ∧ isDigits q = true) := by
  cases depth with
  | succ depth => exact ⟨p, _, rfl, .inl rfl⟩
  | zero =>
    cases hr : raisePart p with
    | some next =>
      obtain ⟨hp, hnext, -⟩ := scan_of_raisePart hr
      exact ⟨next, _, by simp [boundaryLine, boundaryTail_of_raise hr]; rfl, .inr ⟨hp, hnext⟩⟩
    | none =>
      cases side with
      | lower =>
        exact ⟨p, _, by simp [boundaryLine, boundaryTail_lower_zero_of_keep hr]; rfl, .inl rfl⟩
      | upper =>
        exact ⟨p, _, by simp [boundaryLine, boundaryTail_upper_of_keep hr]; rfl, .inl rfl⟩

/-- No part of a boundary is empty. -/
theorem ne_nil_of_mem_boundaryLine {version : String} {depth : Nat} {side : Side} {q : List Char}
    (hq : q ∈ boundaryLine (partsOf version.toList) depth side) : q ≠ [] := by
  simp only [boundaryLine, List.mem_append] at hq
  rcases hq with (hq | hq) | hq
  · exact (mem_partsOf (List.mem_of_mem_take hq)).1
  · rcases mem_boundaryTail hq with hq | hq
    · exact (mem_partsOf (List.mem_of_getElem? hq)).1
    · exact hq.1
  · cases side with
    | lower => exact List.mem_singleton.mp hq ▸ List.cons_ne_nil _ _
    | upper => cases hq

section Boundary

variable {version text : String} {p : List Char} {ps : List (List Char)} {depth : Nat}
  {side : Side} (hparts : partsOf version.toList = p :: ps)
  (h : nextBoundary version depth side = some text)
include hparts h

/-- **A boundary begins with an operator exactly if the first part does.** -/
theorem beginsWithOperator_nextBoundary :
    beginsWithOperator text.toList = beginsWithOperator p := by
  obtain ⟨q, qs, hline, hq⟩ := exists_boundaryLine_cons p ps depth side
  obtain ⟨-, -, rfl⟩ := nextBoundary_eq_some_iff.mp h
  rw [← hparts] at hline
  have hne : q ≠ [] := ne_nil_of_mem_boundaryLine (hline ▸ List.mem_cons_self)
  rw [String.toList_ofList, hline, beginsWithOperator_withDots hne]
  rcases hq with rfl | ⟨hp, hq⟩
  · rfl
  · rw [beginsWithOperator_of_isDigits hp, beginsWithOperator_of_isDigits hq]

/-- The parts of a boundary are found again in it, if it begins with no operator. -/
theorem partsOf_nextBoundary (hop : beginsWithOperator p = false) :
    ∃ q qs, boundaryLine (p :: ps) depth side = q :: qs ∧
      partsOf text.toList = dropMark q :: qs := by
  have hbegin := (beginsWithOperator_nextBoundary hparts h).trans hop
  obtain ⟨q, qs, hline, -⟩ := exists_boundaryLine_cons p ps depth side
  refine ⟨q, qs, hline, ?_⟩
  obtain ⟨-, -, rfl⟩ := nextBoundary_eq_some_iff.mp h
  rw [← hparts] at hline
  have hne : ∀ r ∈ q :: qs, r ≠ [] := fun r hr => ne_nil_of_mem_boundaryLine (hline ▸ hr)
  have hdotted : Dotted (q :: qs) := hline ▸ dotted_boundary version depth side
  rw [String.toList_ofList, hline] at hbegin ⊢
  rw [beginsWithOperator_withDots (hne q List.mem_cons_self)] at hbegin
  exact hdotted.partsOf hne (beginsWithOperator_eq_false_iff.mp hbegin)

end Boundary

end Version

/-! ## Ranges as requirements -/

namespace Range

open Version

/-- The comparators that a range is written from. -/
def requirement (r : Range) : Requirement :=
  ⟨⟨.atLeast, Version.read r.lower⟩ ::
    r.upper.toList.map fun upper => ⟨.less, Version.read upper⟩⟩

/-- The range of all versions. -/
def everything : Range := ⟨"0", none⟩

theorem render_everything : everything.render = allVersions := rfl

section Read

variable {r : Range} (hlower : IsPlain r.lower.toList)
  (hupper : ∀ upper ∈ r.upper, IsPlain upper.toList)
include hlower hupper

/-- A range whose lower end begins with an operator cannot be read: the operator in front of it
becomes one that does not exist. -/
theorem read?_render_of_beginsWithOperator (hop : beginsWithOperator r.lower.toList = true) :
    Requirement.read? r.render = .error (.invalidRequirement r.render
      (ConstraintFault.unknownOperator (">= " ++ r.lower)).message) := by
  have hfault : Comparator.read? (Operator.atLeast.symbol.toList ++ ' ' :: r.lower.toList) =
      .error (.unknownOperator (">= " ++ r.lower)) := by
    have htext : String.ofList (Operator.atLeast.symbol.toList ++ ' ' :: r.lower.toList) =
        ">= " ++ r.lower := by
      rw [← String.toList_inj]
      simp [Operator.symbol]
    rw [Comparator.read?_symbol .atLeast hlower, htext]
    exact if_pos hop
  rw [Requirement.read?, isEmpty_trim_render, if_neg Bool.false_ne_true,
    splitOn_render hlower hupper, mapM_cons_error hfault]

/-- A range is written as its two comparators are. -/
theorem render_requirement : r.requirement.render = r.render := by
  rw [← String.toList_inj, toList_render]
  cases hu : r.upper with
  | none =>
    simp [Requirement.render, requirement, Comparator.render, Operator.symbol, hu,
      hlower.text_read]
  | some upper =>
    simp [Requirement.render, requirement, Comparator.render, Operator.symbol, upperConstraint, hu,
      hlower.text_read, (hupper upper hu).text_read]

/-- A range whose ends begin with no operator is read as its two ends. -/
theorem read?_render_of_not_beginsWithOperator
    (hop : beginsWithOperator r.lower.toList = false)
    (hop' : ∀ upper ∈ r.upper, beginsWithOperator upper.toList = false) :
    Requirement.read? r.render = .ok r.requirement := by
  have hwritable : ∀ (op : Operator) (text : String), IsPlain text.toList →
      beginsWithOperator text.toList = false → (Comparator.mk op (.read text)).IsWritable := by
    intro op text htext hbegin
    refine ⟨text.toList, ⟨htext.ne_nil, fun c hc => (htext.plain c hc).2, ?_⟩,
      htext.not_mem_comma, by rw [String.ofList_toList]⟩
    exact beginsWithOperator_eq_false_iff.mp hbegin
  rw [← render_requirement hlower hupper]
  apply Requirement.read?_render_of_isWritable (List.cons_ne_nil _ _)
  refine List.forall_mem_cons.mpr ⟨hwritable .atLeast r.lower hlower hop, ?_⟩
  intro c hc
  obtain ⟨upper, hu, rfl⟩ := List.mem_map.mp hc
  have hu' : upper ∈ r.upper := Option.mem_toList.mp hu
  exact hwritable .less upper (hupper upper hu') (hop' upper hu')

end Read

section Derived

variable {version : String} {kind : UpdateKind} {reach : Reach} {r : Range}
  (h : ofKind kind version reach = some r)
include h

theorem beginsWithOperator_lower_of_ofKind :
    beginsWithOperator r.lower.toList = hidesOperator version := by
  obtain ⟨p, ps, hparts, -⟩ := exists_aligned_of_ofKind h
  obtain ⟨⟨depth, hlower⟩, -⟩ := exists_boundaries_of_ofKind h
  rw [beginsWithOperator_nextBoundary hparts hlower, beginsWithOperator_part hparts]

/-- Where the version hides no operator, the upper end begins with none. -/
theorem beginsWithOperator_upper_of_ofKind (hop : hidesOperator version = false) :
    ∀ upper ∈ r.upper, beginsWithOperator upper.toList = false := by
  obtain ⟨p, ps, hparts, -⟩ := exists_aligned_of_ofKind h
  have hp : beginsWithOperator p = false := (beginsWithOperator_part hparts).trans hop
  intro u hu
  have hend : ∀ {upper : String} {depth : Nat}, nextBoundary version depth .upper = some upper →
      r.upper = some upper → beginsWithOperator u.toList = false := by
    intro upper depth hb hr
    obtain rfl : upper = u := Option.some.inj (hr.symm.trans hu)
    exact (beginsWithOperator_nextBoundary hparts hb).trans hp
  cases kind with
  | patch =>
    obtain ⟨-, upper, hb, hr⟩ := patch_eq_some_iff.mp h
    exact hend hb hr
  | minor =>
    obtain ⟨-, upper, hb, hr⟩ := minor_eq_some_iff.mp h
    exact hend hb hr
  | major =>
    cases reach with
    | unbounded =>
      obtain ⟨-, hr⟩ := major_unbounded_eq_some_iff.mp h
      cases hr.symm.trans hu
    | nextLine =>
      -- The end is a boundary of a boundary, whose first part is that of the first one.
      obtain ⟨-, next, upper, hnext, hb, hr⟩ := major_nextLine_eq_some_iff.mp h
      obtain rfl : upper = u := Option.some.inj (hr.symm.trans hu)
      obtain ⟨q, qs, hline, hnextParts⟩ := partsOf_nextBoundary hparts hnext hp
      obtain ⟨q', qs', hline', hq⟩ := exists_boundaryLine_cons p ps 0 .upper
      obtain ⟨rfl, rfl⟩ := List.cons.inj (hline'.symm.trans hline)
      rw [beginsWithOperator_nextBoundary hnextParts hb, beginsWithOperator_dropMark]
      rcases hq with rfl | ⟨-, hq⟩
      · exact hp
      · exact beginsWithOperator_of_isDigits hq

/-- **A derived range is read as the comparators it was written from**, unless the version hides
an operator; then it cannot be read. -/
theorem read?_render_of_ofKind :
    Requirement.read? r.render =
      if hidesOperator version then
        .error (.invalidRequirement r.render
          (ConstraintFault.unknownOperator (">= " ++ r.lower)).message)
      else .ok r.requirement := by
  have hends := hasDottedEnds_of_ofKind h
  have hlower := hends.lower.isPlain
  have hupper : ∀ upper ∈ r.upper, IsPlain upper.toList :=
    fun upper hu => (hends.upper upper hu).isPlain
  have hbegin := beginsWithOperator_lower_of_ofKind h
  cases hop : hidesOperator version with
  | true =>
    rw [hop] at hbegin
    rw [if_pos rfl]
    exact read?_render_of_beginsWithOperator hlower hupper hbegin
  | false =>
    rw [hop] at hbegin
    rw [if_neg Bool.false_ne_true]
    exact read?_render_of_not_beginsWithOperator hlower hupper hbegin
      (beginsWithOperator_upper_of_ofKind h hop)

end Derived

end Range

/-! ## The ranges of a condition -/

/-- The failure of a reading names the text that was read. -/
theorem Requirement.eq_of_read?_error {text requirement reason : String}
    (h : Requirement.read? text = .error (.invalidRequirement requirement reason)) :
    requirement = text := by
  unfold Requirement.read? at h
  split at h
  · cases h
  · split at h
    · cases h
    · cases h
      rfl

/-- What stops a dependency is one of its ranges. -/
theorem exists_mem_of_decide?_error {ranges : List String} {minAge : Option Duration} {now : Instant}
    {d : Dependency} {offered : List Candidate} {cause : PolicyFailure}
    (h : (decide? ranges minAge now d offered).2 = some cause) :
    ∃ range ∈ ranges, Requirement.read? range = .error cause := by
  cases hread : ranges.mapM Requirement.read? with
  | ok ignored => simp [decide?, Selector.read?, hread, Except.map] at h
  | error cause' =>
    obtain rfl : cause' = cause := by simpa [decide?, Selector.read?, hread, Except.map] using h
    exact exists_mem_of_mapM_error hread

/-- A range that cannot be read stops the dependency, whatever the other ranges are. -/
theorem isSome_decide?_of_read?_error {ranges : List String} {minAge : Option Duration} {now : Instant}
    {d : Dependency} {offered : List Candidate} {range : String} {cause : PolicyFailure}
    (hrange : range ∈ ranges) (h : Requirement.read? range = .error cause) :
    (decide? ranges minAge now d offered).2.isSome = true := by
  cases hread : ranges.mapM Requirement.read? with
  | error cause' => simp [decide?, Selector.read?, hread, Except.map]
  | ok ignored =>
    obtain ⟨q, -, hq⟩ := exists_mem_of_mapM hread hrange
    cases hq.symm.trans h

namespace IgnoreCondition

open Version

variable {c : IgnoreCondition} {d : Dependency} {securityOnly : Bool} {range : String}

/-- The ranges that a condition without given ranges derives for a dependency. -/
def Derives (c : IgnoreCondition) (d : Dependency) (r : Range) : Prop :=
  match c.kinds with
  | none => r = .everything
  | some kinds => ∃ kind ∈ kinds, ∃ version ∈ d.version, Range.ofKind kind version c.reach = some r

theorem exists_derives_of_mem_ignored (hversions : c.versions = none)
    (hrange : range ∈ c.ignored d securityOnly) : ∃ r, c.Derives d r ∧ r.render = range := by
  simp only [ignored, hversions] at hrange
  split at hrange
  · cases hrange
  · cases hkinds : c.kinds with
    | none =>
      rw [hkinds] at hrange
      refine ⟨.everything, by simp [Derives, hkinds], ?_⟩
      exact Range.render_everything.trans (List.mem_singleton.mp hrange).symm
    | some kinds =>
      cases hversion : d.version with
      | none => simp [hkinds, hversion] at hrange
      | some version =>
        simp only [hkinds, hversion] at hrange
        obtain ⟨kind, hkind, r, hr, rfl⟩ := mem_kindRanges_iff.mp hrange
        refine ⟨r, ?_, rfl⟩
        simp only [Derives, hkinds]
        exact ⟨kind, hkind, version, hversion, hr⟩

/-- Whether a condition derives ranges from a version that hides an operator. -/
def derivesUnreadable (c : IgnoreCondition) (d : Dependency) : Bool :=
  c.kinds.isSome && d.version.any hidesOperator

/-- What is derived can be read, unless it is derived from a version that hides an operator. -/
theorem read?_render_of_derives {r : Range} (h : c.Derives d r) :
    Requirement.read? r.render =
      if c.derivesUnreadable d then
        .error (.invalidRequirement r.render
          (ConstraintFault.unknownOperator (">= " ++ r.lower)).message)
      else .ok r.requirement := by
  unfold Derives at h
  unfold derivesUnreadable
  cases hkinds : c.kinds with
  | none =>
    rw [hkinds] at h
    subst h
    rfl
  | some kinds =>
    rw [hkinds] at h
    obtain ⟨kind, -, version, hversion, hr⟩ := h
    rw [Option.mem_def.mp hversion, Option.any_some, Option.isSome_some, Bool.true_and]
    exact Range.read?_render_of_ofKind hr

/-- **A condition without given ranges yields ranges that are read as they were written**, unless
the dependency uses a version that hides an operator. Then none of them can be read, and each stops
the dependency; and only then does a range of the condition stop it, whatever other ranges are
ignored for it. -/
theorem read?_of_mem_ignored (hversions : c.versions = none)
    (hrange : range ∈ c.ignored d securityOnly) :
    (∃ r, c.Derives d r ∧ r.render = range ∧
        Requirement.read? range =
          if c.derivesUnreadable d then
            .error (.invalidRequirement range
              (ConstraintFault.unknownOperator (">= " ++ r.lower)).message)
          else .ok r.requirement) ∧
      ∀ ranges minAge now offered,
        (c.derivesUnreadable d = true → range ∈ ranges →
            (decide? ranges minAge now d offered).2.isSome = true) ∧
          ∀ reason, (decide? ranges minAge now d offered).2 =
              some (.invalidRequirement range reason) → c.derivesUnreadable d = true := by
  obtain ⟨r, hr, rfl⟩ := exists_derives_of_mem_ignored hversions hrange
  have hread := read?_render_of_derives hr
  refine ⟨⟨r, hr, rfl, hread⟩, ?_⟩
  intro ranges minAge now offered
  cases hunreadable : c.derivesUnreadable d with
  | true =>
    rw [hunreadable, if_pos rfl] at hread
    exact ⟨fun _ hmem => isSome_decide?_of_read?_error hmem hread, fun _ _ => rfl⟩
  | false =>
    refine ⟨fun h => absurd h Bool.false_ne_true, ?_⟩
    intro reason hcause
    -- The range that stopped the dependency would be this one, which can be read.
    obtain ⟨text, -, herror⟩ := exists_mem_of_decide?_error hcause
    rw [← Requirement.eq_of_read?_error herror, hread, hunreadable] at herror
    cases herror

/-- A condition on all updates of every dependency. -/
def everyKind : IgnoreCondition :=
  ⟨⟨"*", .gap⟩, none, some [.patch, .minor, .major], false, .nextLine⟩

/-- A dependency whose version has an operator behind a comma. -/
def commaDependency : Dependency :=
  ⟨"rails", some ", =1.0", .bundler, []⟩

/-- None of the ranges that are derived from this version can be read, and the first one stops the
dependency. -/
theorem ignored_commaDependency :
    everyKind.ignored commaDependency false =
        [">= =1.0.1.a, < =1.1", ">= =1.1.a, < =1.999999", ">= =1.a, < 2"] ∧
      (∀ range ∈ everyKind.ignored commaDependency false,
        (Requirement.read? range).isOk = false) ∧
      (decide? (everyKind.ignored commaDependency false) none ⟨0, 0⟩ commaDependency []).1 =
        .skip commaDependency (.invalidRange
          ("invalid version requirement '>= =1.0.1.a, < =1.1': " ++
            "unknown operator in '>= =1.0.1.a'")) := by
  decide

theorem read?_of_mem_ignored_commaDependency :
    everyKind.versions = none ∧ ">= =1.a, < 2" ∈ everyKind.ignored commaDependency false ∧
      (∃ r, everyKind.Derives commaDependency r ∧ r.render = ">= =1.a, < 2" ∧
        Requirement.read? ">= =1.a, < 2" =
          if everyKind.derivesUnreadable commaDependency then
            .error (.invalidRequirement ">= =1.a, < 2"
              (ConstraintFault.unknownOperator (">= " ++ r.lower)).message)
          else .ok r.requirement) ∧
      ∀ ranges minAge now offered,
        (everyKind.derivesUnreadable commaDependency = true → ">= =1.a, < 2" ∈ ranges →
            (decide? ranges minAge now commaDependency offered).2.isSome = true) ∧
          ∀ reason, (decide? ranges minAge now commaDependency offered).2 =
              some (.invalidRequirement ">= =1.a, < 2" reason) →
            everyKind.derivesUnreadable commaDependency = true := by
  have hrange : ">= =1.a, < 2" ∈ everyKind.ignored commaDependency false := by decide
  exact ⟨rfl, hrange, read?_of_mem_ignored rfl hrange⟩

end IgnoreCondition

end UpdatePlanner
