import UpdatePlanner.Proofs.Version.Alignment

/-!
# What boundaries denote

A boundary is a text of parts with dots between them. Read as a version it has the segments of
its parts, with two reservations: a mark before the first digit is dropped, and the text has no
update number, as its last part consists of letters and digits. The parts of a boundary are
found again in it.

## Main definitions

* `Dotted parts`: parts that can be written with dots between them and told apart again
* `partsSegments parts`: the segments of a text of such parts

## Main results

* `Dotted.segments_read`, `Dotted.update_read`: the version that a dotted text denotes
* `Dotted.partsOf`: the parts of a dotted text
* `nextBoundary_eq_some_iff`: the boundary of a version with given parts
* `dotted_boundaryLine`: the parts of a boundary can be told apart
-/

namespace UpdatePlanner

open Text Segment

namespace Version

/-! ## Dotted texts -/

/-- A text of letters and digits. -/
def Alphanumeric (cs : List Char) : Prop := cs ≠ [] ∧ ∀ c ∈ cs, c.isAlphanum = true

/-- Parts that are found again when dots are written between them. -/
structure Dotted (parts : List (List Char)) : Prop where
  /-- No part holds a separator. -/
  clean : ∀ p ∈ parts, ∀ c ∈ p, isPartSeparator c = false
  /-- The last part is a text of letters and digits. -/
  last : ∃ l, parts.getLast? = some l ∧ Alphanumeric l

/-- The segments of a text of parts. A mark before the first digit does not count. -/
def partsSegments : List (List Char) → List Segment
  | [] => []
  | p :: ps => scan (dropMark p) ++ ps.flatMap scan

/-- A text with dots between its parts. -/
def withDots (parts : List (List Char)) : List Char :=
  ['.'].intercalate parts

theorem withDots_cons_cons (p r : List Char) (ps : List (List Char)) :
    withDots (p :: r :: ps) = p ++ '.' :: withDots (r :: ps) := by
  simp [withDots, List.intercalate_cons_cons]

theorem withDots_concat {parts : List (List Char)} (hne : parts ≠ [])
    (l : List Char) : withDots (parts ++ [l]) = withDots parts ++ '.' :: l := by
  induction parts with
  | nil => exact absurd rfl hne
  | cons p ps ih =>
    cases ps with
    | nil => simp [withDots, List.intercalate_cons_cons]
    | cons r rs =>
      rw [List.cons_append, List.cons_append, withDots_cons_cons, withDots_cons_cons,
        ← List.cons_append, ih (by simp), List.append_assoc, List.cons_append]

/-- What holds of the parts and of the dot holds of the whole text. -/
theorem forall_mem_withDots {P : Char → Prop} (hdot : P '.') {parts : List (List Char)}
    (h : ∀ p ∈ parts, ∀ c ∈ p, P c) : ∀ c ∈ withDots parts, P c := by
  induction parts with
  | nil => simp [withDots]
  | cons p ps ih =>
    rw [List.forall_mem_cons] at h
    cases ps with
    | nil => simpa [withDots] using h.1
    | cons r rs =>
      rw [withDots_cons_cons, List.forall_mem_append, List.forall_mem_cons]
      exact ⟨h.1, hdot, ih h.2⟩

/-- A mark stands in the first part. -/
theorem dropMark_withDots (p : List Char) (ps : List (List Char)) :
    dropMark (withDots (p :: ps)) = withDots (dropMark p :: ps) := by
  cases ps with
  | nil => simp [withDots]
  | cons r rs =>
    rw [withDots_cons_cons, withDots_cons_cons]
    match p with
    | [] => exact dropMark_cons_of_gap isGap_dot _
    | [c] => simp [dropMark]
    | c :: d :: cs =>
      simp only [List.cons_append, dropMark]
      split <;> rfl

theorem Alphanumeric.not_isGap {cs : List Char} (h : Alphanumeric cs) :
    ∀ c ∈ cs, ¬ IsGap c := by
  intro c hc hgap
  have halnum := h.2 c hc
  rw [Char.isAlphanum, hgap.1, hgap.2] at halnum
  exact absurd halnum (by decide)

theorem Alphanumeric.isPartSeparator {cs : List Char} (h : Alphanumeric cs) :
    ∀ c ∈ cs, isPartSeparator c = false := by
  intro c hc
  exact isPartSeparator_eq_false (h.not_isGap c hc)

theorem Alphanumeric.scan_ne_nil {cs : List Char} (h : Alphanumeric cs) : scan cs ≠ [] := by
  obtain ⟨c, hc⟩ := List.exists_mem_of_ne_nil cs h.1
  exact Segment.scan_ne_nil ⟨c, hc, h.2 c hc⟩

namespace Dotted

variable {parts : List (List Char)} (h : Dotted parts)
include h

theorem ne_nil : parts ≠ [] := by
  obtain ⟨l, hl, -⟩ := h.last
  rintro rfl
  simp at hl

theorem withDots_ne_nil : withDots parts ≠ [] := by
  obtain ⟨l, hl, hne, -⟩ := h.last
  obtain ⟨ps, rfl⟩ := List.getLast?_eq_some_iff.mp hl
  cases ps with
  | nil => simpa [withDots] using hne
  | cons p ps => rw [withDots_concat (by simp)]; simp

/-- Nothing in a dotted text is a comma or white space. -/
theorem isPlain : ∀ c ∈ withDots parts, c ≠ ',' ∧ isBlank c = false := by
  refine forall_mem_withDots ⟨by decide, rfl⟩ ?_
  intro p hp c hc
  have hclean := h.clean p hp c hc
  simp only [isPartSeparator, Bool.or_eq_false_iff, beq_eq_false_iff_ne] at hclean
  exact ⟨hclean.1.2, hclean.2⟩

theorem trim_withDots : trim (withDots parts) = withDots parts := by
  apply trim_eq_self
  · intro c hc
    exact (h.isPlain c (List.mem_of_mem_head? hc)).2
  · intro c hc
    exact (h.isPlain c (List.mem_of_getLast? hc)).2

/-- The end of a dotted text behind an underscore holds a dot, and is no update number. -/
theorem splitUpdate_withDots : splitUpdate (withDots parts) = (withDots parts, none) := by
  obtain ⟨l, hl, halnum⟩ := h.last
  obtain ⟨ps, rfl⟩ := List.getLast?_eq_some_iff.mp hl
  have hunder : '_' ∉ l := by
    intro hc
    exact halnum.not_isGap '_' hc isGap_underscore
  cases hps : ps with
  | nil =>
    -- A single part has no underscore at all.
    simp [withDots, splitUpdate, splitLast_eq_none hunder]
  | cons p ps' =>
    -- So the last underscore stands in front of the last dot.
    have hunder' : '_' ∉ '.' :: l := by simp [hunder]
    rw [withDots_concat (by simp), splitUpdate, splitLast_append_right hunder']
    cases splitLast '_' (withDots (p :: ps')) with
    | none => rfl
    | some ba =>
      have hdot : isDigits (ba.2 ++ '.' :: l) = false := by
        apply Bool.eq_false_iff.mpr
        intro hd
        exact notMem_of_isDigits hd isGap_dot (by simp)
      simp [hdot]

end Dotted

theorem Dotted.dropMark {p : List Char} {ps : List (List Char)} (h : Dotted (p :: ps)) :
    Dotted (dropMark p :: ps) := by
  rcases dropMark_cases p with hp | ⟨m, d, ds, rfl, -, hd, hp⟩ <;> rw [hp]
  · exact h
  · obtain ⟨l, hl, halnum⟩ := h.last
    refine ⟨?_, ?_⟩
    · have hclean := h.clean
      rw [List.forall_mem_cons] at hclean ⊢
      refine ⟨?_, hclean.2⟩
      intro c hc
      exact hclean.1 c (List.mem_cons_of_mem m hc)
    · -- The part that loses its mark is the last one, or the last one stays.
      cases ps with
      | nil =>
        rw [List.getLast?_singleton, Option.some.injEq] at hl
        subst hl
        refine ⟨_, rfl, by simp, ?_⟩
        intro c hc
        exact halnum.2 c (List.mem_cons_of_mem m hc)
      | cons r rs => exact ⟨l, by simpa using hl, halnum⟩

namespace Dotted

variable {parts : List (List Char)} (h : Dotted parts)
include h

theorem flatMap_scan_ne_nil : parts.flatMap scan ≠ [] := by
  obtain ⟨l, hl, halnum⟩ := h.last
  obtain ⟨ps, rfl⟩ := List.getLast?_eq_some_iff.mp hl
  simp [halnum.scan_ne_nil]

/-- A dotted text has the segments of its parts. -/
theorem segments_read :
    (read (String.ofList (withDots parts))).segments = partsSegments parts := by
  obtain ⟨p, ps, rfl⟩ := List.exists_cons_of_ne_nil h.ne_nil
  have hscan : scan (withDots (Version.dropMark p :: ps)) = partsSegments (p :: ps) := by
    rw [withDots, scan_intercalate, List.flatMap_cons, partsSegments]
  rw [Version.segments_read, release, String.toList_ofList, h.trim_withDots, dropMark_withDots,
    h.dropMark.splitUpdate_withDots, releaseSegments_of_scan_ne_nil, hscan]
  rw [withDots, scan_intercalate]
  exact h.dropMark.flatMap_scan_ne_nil

theorem text_read :
    (read (String.ofList (withDots parts))).text = String.ofList (withDots parts) := by
  rw [read, String.toList_ofList, h.trim_withDots]

/-- A dotted text has no update number. -/
theorem update_read : (read (String.ofList (withDots parts))).update = none := by
  obtain ⟨p, ps, rfl⟩ := List.exists_cons_of_ne_nil h.ne_nil
  have hupdate : (splitUpdate (Version.dropMark (trim (withDots (p :: ps))))).2 = none := by
    rw [h.trim_withDots, dropMark_withDots, h.dropMark.splitUpdate_withDots]
  simp [read, hupdate]

end Dotted

/-- The parts of a dotted text that begins with no operator. -/
theorem Dotted.partsOf {p : List Char} {ps : List (List Char)} (h : Dotted (p :: ps))
    (hne : ∀ q ∈ p :: ps, q ≠ []) (hop : ∀ c ∈ p.head?, isOperatorChar c = false) :
    partsOf (withDots (p :: ps)) = Version.dropMark p :: ps := by
  obtain ⟨c, cs, rfl⟩ := List.exists_cons_of_ne_nil (hne p (by simp))
  obtain ⟨rest, hjoin⟩ : ∃ rest, withDots ((c :: cs) :: ps) = c :: rest := by
    cases ps with
    | nil => exact ⟨cs, by simp [withDots]⟩
    | cons r rs => exact ⟨_, by rw [withDots_cons_cons, List.cons_append]⟩
  have hbare : (withDots ((c :: cs) :: ps)).dropWhile (fun c => isOperatorChar c || isBlank c) =
      withDots ((c :: cs) :: ps) := by
    apply dropWhile_eq_self
    intro d hd
    rw [hjoin, List.head?_cons, Option.mem_some_iff] at hd
    subst hd
    rw [hop c rfl, (h.isPlain c (by simp [hjoin])).2]
    rfl
  -- Nothing is taken away from the text but the mark, and so the cut gives the parts back.
  rw [Version.partsOf, h.trim_withDots, hbare, dropMark_withDots,
    h.dropMark.splitUpdate_withDots, withDots,
    splitOnP_intercalate rfl (by simp) h.dropMark.clean, List.filter_eq_self]
  rw [List.forall_mem_cons] at hne ⊢
  refine ⟨by simpa using dropMark_ne_nil hne.1, ?_⟩
  intro q hq
  simpa using hne.2 q hq

/-! ## Parts of a boundary -/

theorem alphanumeric_of_isDigits {cs : List Char} (h : isDigits cs = true) :
    Alphanumeric cs := by
  obtain ⟨hne, hall⟩ := isDigits_iff.mp h
  refine ⟨hne, ?_⟩
  intro c hc
  simp [Char.isAlphanum, hall c hc]

theorem dropMark_of_isDigits {cs : List Char} (h : isDigits cs = true) : dropMark cs = cs := by
  obtain ⟨d, ds, rfl, hd, -⟩ := exists_cons_of_isDigits h
  exact dropMark_cons_digit hd ds

/-- A number is raised if the next one can be held. -/
theorem raisePart_of_isDigits {cs : List Char} (h : isDigits cs = true)
    (hvalue : digitsValue cs < maxNumber) :
    raisePart cs = some (digits (digitsValue cs + 1)) := by
  have hnumber : number? cs = some (digitsValue cs) :=
    number?_eq_some_iff.mpr ⟨h, Nat.le_of_lt hvalue, rfl⟩
  simp only [raisePart, hnumber, Option.bind_eq_bind, Option.bind_some, if_pos hvalue]

/-- A part that can be raised is a number, and so is what it is raised to. -/
theorem scan_of_raisePart {part next : List Char} (h : raisePart part = some next) :
    isDigits part = true ∧ isDigits next = true ∧
      ∃ n, scan part = [.number n] ∧ scan next = [.number (n + 1)] := by
  simp only [raisePart, Option.bind_eq_bind, Option.bind_eq_some_iff,
    Option.ite_none_right_eq_some, Option.some.injEq] at h
  obtain ⟨n, hn, hlt, rfl⟩ := h
  obtain ⟨hpart, hle, rfl⟩ := number?_eq_some_iff.mp hn
  refine ⟨hpart, isDigits_digits _, digitsValue part, ?_, ?_⟩
  · rw [scan_digits hpart, clamp_eq_self hle]
  · rw [scan_digits (isDigits_digits _), digitsValue_digits, clamp_eq_self hlt]

@[simp] theorem scan_one : scan ['1'] = [.number 1] := by
  rw [scan_digits rfl]; decide

@[simp] theorem scan_highContinuation : scan highContinuation = [.number 999999] := by
  rw [scan_digits rfl]; decide

@[simp] theorem scan_lowestWord : scan lowestWord = [.word "a"] := by
  rw [lowestWord, scan_letter rfl]; simp

section Tail

variable {part next : List Char}

theorem boundaryTail_of_raise (h : raisePart part = some next) (depth : Nat) (side : Side) :
    boundaryTail (some part) depth side = [next] := by
  simp [boundaryTail, h]

theorem boundaryTail_upper_of_keep (h : raisePart part = none) (depth : Nat) :
    boundaryTail (some part) depth .upper = [part, highContinuation] := by
  simp [boundaryTail, h]

theorem boundaryTail_lower_zero_of_keep (h : raisePart part = none) :
    boundaryTail (some part) 0 .lower = [part] := by
  simp [boundaryTail, h]

theorem boundaryTail_lower_succ_of_keep (h : raisePart part = none) (depth : Nat) :
    boundaryTail (some part) (depth + 1) .lower = [part, ['1']] := by
  simp [boundaryTail, h]

end Tail

/-- The parts of the boundary of a version with the given parts. -/
def boundaryLine (parts : List (List Char)) (depth : Nat) (side : Side) : List (List Char) :=
  parts.take depth ++ boundaryTail parts[depth]? depth side ++
    match side with
    | .lower => [lowestWord]
    | .upper => []

theorem boundaryParts_eq_some_iff {parts line : List (List Char)} {depth : Nat} {side : Side} :
    boundaryParts parts depth side = some line ↔
      parts ≠ [] ∧ depth ≤ parts.length ∧ line = boundaryLine parts depth side := by
  unfold boundaryParts boundaryLine
  split
  · next h =>
    simp only [Bool.or_eq_true, List.isEmpty_iff, decide_eq_true_eq] at h
    constructor
    · intro he
      cases he
    · rintro ⟨hne, hle, -⟩
      rcases h with h | h
      · exact absurd h hne
      · omega
  · next h =>
    simp only [Bool.or_eq_true, List.isEmpty_iff, decide_eq_true_eq, not_or] at h
    cases side <;> simp [h.1, Nat.le_of_not_lt h.2, eq_comm]

theorem nextBoundary_eq_some_iff {version text : String} {depth : Nat} {side : Side} :
    nextBoundary version depth side = some text ↔
      partsOf version.toList ≠ [] ∧ depth ≤ (partsOf version.toList).length ∧
        text = String.ofList (withDots (boundaryLine (partsOf version.toList) depth side)) := by
  simp only [nextBoundary, Option.map_eq_some_iff, boundaryParts_eq_some_iff]
  constructor
  · rintro ⟨line, ⟨hne, hle, rfl⟩, rfl⟩
    exact ⟨hne, hle, rfl⟩
  · rintro ⟨hne, hle, rfl⟩
    exact ⟨_, ⟨hne, hle, rfl⟩, rfl⟩

/-- A boundary ends in the part of the version at its depth or in a text of letters and
digits. -/
theorem mem_boundaryTail {part? : Option (List Char)} {depth : Nat} {side : Side}
    {q : List Char} (h : q ∈ boundaryTail part? depth side) :
    part? = some q ∨ Alphanumeric q := by
  have hone : Alphanumeric ['1'] := alphanumeric_of_isDigits rfl
  cases part? with
  | none => exact .inr (List.mem_singleton.mp h ▸ hone)
  | some part =>
    cases hr : raisePart part with
    | some next =>
      rw [boundaryTail_of_raise hr, List.mem_singleton] at h
      exact .inr (h ▸ alphanumeric_of_isDigits (scan_of_raisePart hr).2.1)
    | none =>
      cases side with
      | upper =>
        rw [boundaryTail_upper_of_keep hr, List.mem_cons, List.mem_singleton] at h
        rcases h with rfl | rfl
        · exact .inl rfl
        · exact .inr (alphanumeric_of_isDigits rfl)
      | lower =>
        cases depth with
        | zero =>
          rw [boundaryTail_lower_zero_of_keep hr, List.mem_singleton] at h
          exact .inl (by rw [h])
        | succ depth =>
          rw [boundaryTail_lower_succ_of_keep hr, List.mem_cons, List.mem_singleton] at h
          rcases h with rfl | rfl
          · exact .inl rfl
          · exact .inr hone

/-- The number at the end of an upper bound. -/
theorem exists_boundaryTail_upper (part? : Option (List Char)) (depth : Nat) :
    ∃ init l, boundaryTail part? depth .upper = init ++ [l] ∧ isDigits l = true := by
  cases part? with
  | none => exact ⟨[], ['1'], rfl, rfl⟩
  | some part =>
    cases hr : raisePart part with
    | none => exact ⟨[part], highContinuation, boundaryTail_upper_of_keep hr depth, rfl⟩
    | some next =>
      exact ⟨[], next, boundaryTail_of_raise hr depth .upper, (scan_of_raisePart hr).2.1⟩

/-- The parts of a boundary can be told apart, as those of the version can. -/
theorem dotted_boundaryLine {parts : List (List Char)}
    (h : ∀ p ∈ parts, ∀ c ∈ p, isPartSeparator c = false) (depth : Nat) (side : Side) :
    Dotted (boundaryLine parts depth side) := by
  have hword : Alphanumeric lowestWord := by
    refine ⟨List.cons_ne_nil _ _, ?_⟩
    intro c hc
    rw [List.mem_singleton.mp hc]
    rfl
  constructor
  · intro q hq
    simp only [boundaryLine, List.mem_append] at hq
    rcases hq with (hq | hq) | hq
    · exact h q (List.mem_of_mem_take hq)
    · rcases mem_boundaryTail hq with hq | hq
      · exact h q (List.mem_of_getElem? hq)
      · exact hq.isPartSeparator
    · cases side with
      | lower => exact List.mem_singleton.mp hq ▸ hword.isPartSeparator
      | upper => simp at hq
  · cases side with
    | lower => exact ⟨lowestWord, by simp [boundaryLine], hword⟩
    | upper =>
      obtain ⟨init, l, htail, hl⟩ := exists_boundaryTail_upper parts[depth]? depth
      exact ⟨l, by simp [boundaryLine, htail], alphanumeric_of_isDigits hl⟩

end Version

end UpdatePlanner
