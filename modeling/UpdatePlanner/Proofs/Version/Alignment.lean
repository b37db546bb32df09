import UpdatePlanner.Proofs.Version.Scan

/-!
# Segments and parts of a version

A version text is sliced twice: into segments, by which it is compared, and into parts, from
which boundaries are made. The two slicings take away different beginnings of the text: only the
parts ignore a leading operator, and so only they find a mark or an underscore behind one. This
module says how the segments lie in the parts all the same.

## Main definitions

* `release`, `plainRelease`: what is sliced into segments and into parts
* `Aligned segments parts`: the three ways in which segments lie in parts

## Main results

* `plainRelease_eq_release`: without an operator in front both slicings start from one release
* `aligned_read`: the segments and the parts of a version that is not blank are aligned
* `Aligned.cases_cons`: the segments next to the first part
* `Aligned.exists_parts_of_isNumber`: numbers alone are the segments of the parts
* `scan_of_dropMark_ne`: a part that begins with a mark scans as a word before a number
-/

namespace UpdatePlanner.Version

open Text Segment

/-! ## The mark and the update number -/

/-- A mark is a letter before a digit, and dropping it keeps the digit. -/
theorem dropMark_cases (cs : List Char) :
    dropMark cs = cs ∨
      ∃ m d ds, cs = m :: d :: ds ∧ m.isAlpha = true ∧ d.isDigit = true ∧
        dropMark cs = d :: ds := by
  match cs with
  | [] => exact .inl rfl
  | [_] => exact .inl rfl
  | m :: d :: ds =>
    rw [dropMark]
    split
    · next h =>
      simp only [Bool.and_eq_true, Bool.or_eq_true, beq_iff_eq] at h
      refine .inr ⟨m, d, ds, rfl, ?_, h.2, rfl⟩
      rcases h.1 with rfl | rfl <;> rfl
    · exact .inl rfl

theorem dropMark_cons_of_gap {c : Char} (h : IsGap c) (cs : List Char) :
    dropMark (c :: cs) = c :: cs := by
  rcases dropMark_cases (c :: cs) with h' | ⟨m, d, ds, he, hm, -, -⟩
  · exact h'
  · -- The mark would be `c`.
    obtain ⟨rfl, -⟩ := List.cons.inj he
    exact absurd h (not_isGap_of_isAlpha hm)

theorem dropMark_cons_digit {d : Char} (h : d.isDigit = true) (cs : List Char) :
    dropMark (d :: cs) = d :: cs := by
  rcases dropMark_cases (d :: cs) with h' | ⟨m, e, es, he, hm, -, -⟩
  · exact h'
  · obtain ⟨rfl, -⟩ := List.cons.inj he
    exact absurd ((isAlpha_eq_false_of_isDigit h).symm.trans hm) Bool.false_ne_true

theorem dropMark_mark {m d : Char} (hm : m = 'v' ∨ m = 'V') (hd : d.isDigit = true)
    (cs : List Char) : dropMark (m :: d :: cs) = d :: cs := by
  rcases hm with rfl | rfl <;> simp [dropMark, hd]

theorem dropMark_ne_nil {cs : List Char} (h : cs ≠ []) : dropMark cs ≠ [] := by
  rcases dropMark_cases cs with h' | ⟨_, _, _, -, -, -, h'⟩ <;> rw [h']
  · exact h
  · simp

/-- A text that begins with a digit scans as a number first. -/
theorem exists_scan_digit {d : Char} (h : d.isDigit = true) (cs : List Char) :
    ∃ n more, scan (d :: cs) = .number n :: more :=
  ⟨_, _, scan_digit h cs⟩

/-- A letter before a digit is a word of its own. -/
theorem scan_letter_digit {m d : Char} (hm : m.isAlpha = true) (hd : d.isDigit = true)
    (cs : List Char) :
    scan (m :: d :: cs) = .word (String.ofList [m]) :: scan (d :: cs) := by
  rw [scan_letter hm]
  simp [isAlpha_eq_false_of_isDigit hd]

/-- A part that begins with a mark scans as a word before a number. -/
theorem scan_of_dropMark_ne {cs : List Char} (h : dropMark cs ≠ cs) :
    ∃ w n more, scan cs = .word w :: .number n :: more ∧
      scan (dropMark cs) = .number n :: more := by
  rcases dropMark_cases cs with h' | ⟨m, d, ds, rfl, hm, hd, h'⟩
  · exact absurd h' h
  · obtain ⟨n, more, he⟩ := exists_scan_digit hd ds
    exact ⟨_, n, more, by rw [scan_letter_digit hm hd, he], by rw [h', he]⟩

/-- A character that is no underscore may stand in front of the release, unless the rest is an
update number alone. -/
theorem splitUpdate_append {xs cs : List Char} (hxs : '_' ∉ xs)
    (h : ∀ a, cs = '_' :: a → isDigits a = false) :
    (splitUpdate (xs ++ cs)).1 = xs ++ (splitUpdate cs).1 := by
  unfold splitUpdate
  rw [splitLast_append hxs]
  cases hs : splitLast '_' cs with
  | none => rfl
  | some ba =>
    obtain ⟨b, a⟩ := ba
    have hcs := splitLast_eq_some hs
    by_cases hd : isDigits a = true
    · -- The update number has something of `cs` in front of it, with and without `xs`.
      have hb : b ≠ [] := by
        rintro rfl
        exact absurd (h a hcs) (by simp [hd])
      simp [hd, hb]
    · simp [hd]

/-- The release is a beginning of the text. -/
theorem splitUpdate_prefix (cs : List Char) : (splitUpdate cs).1 <+: cs := by
  unfold splitUpdate
  cases hs : splitLast '_' cs with
  | none => exact List.prefix_rfl
  | some ba =>
    dsimp only
    split
    · exact ⟨_, (splitLast_eq_some hs).symm⟩
    · exact List.prefix_rfl

theorem splitUpdate_ne_nil {cs : List Char} (h : cs ≠ []) : (splitUpdate cs).1 ≠ [] := by
  unfold splitUpdate
  cases splitLast '_' cs with
  | none => exact h
  | some ba =>
    dsimp only
    split
    · next hb =>
      simp only [Bool.and_eq_true, Bool.not_eq_true', List.isEmpty_eq_false_iff] at hb
      exact hb.1
    · exact h

/-- The first character is part of the release. -/
theorem exists_splitUpdate_cons (c : Char) (cs : List Char) :
    ∃ rest, (splitUpdate (c :: cs)).1 = c :: rest := by
  obtain ⟨zs, hzs⟩ := splitUpdate_prefix (c :: cs)
  cases hs : (splitUpdate (c :: cs)).1 with
  | nil => exact absurd hs (splitUpdate_ne_nil (by simp))
  | cons e es =>
    rw [hs, List.cons_append] at hzs
    exact ⟨es, by rw [(List.cons.inj hzs).1]⟩

section UnderscoreDigits

variable {a : List Char} (ha : isDigits a = true)
include ha

theorem splitLast_underscore_digits {xs : List Char} (hxs : '_' ∉ xs) :
    splitLast '_' (xs ++ '_' :: a) = some (xs, a) := by
  have hnot : '_' ∉ a := notMem_of_isDigits ha isGap_underscore
  simp [splitLast_append hxs, splitLast, splitLast_eq_none hnot]

/-- An update number with nothing in front of it is a release. -/
theorem splitUpdate_underscore_digits : (splitUpdate ('_' :: a)).1 = '_' :: a := by
  have h : splitLast '_' ([] ++ '_' :: a) = some ([], a) :=
    splitLast_underscore_digits ha (by simp)
  rw [List.nil_append] at h
  simp [splitUpdate, h]

theorem splitUpdate_append_underscore_digits {xs : List Char} (hne : xs ≠ [])
    (hxs : '_' ∉ xs) : splitUpdate (xs ++ '_' :: a) = (xs, some a) := by
  simp [splitUpdate, splitLast_underscore_digits ha hxs, ha, hne]

end UnderscoreDigits

/-! ## Releases -/

theorem releaseSegments_of_scan_ne_nil {cs : List Char} (h : scan cs ≠ []) :
    releaseSegments cs = scan cs := by
  unfold releaseSegments
  cases hs : scan cs with
  | nil => exact absurd hs h
  | cons s ss => rfl

theorem releaseSegments_of_scan_eq_nil {cs : List Char} (h : scan cs = []) (hcs : cs ≠ []) :
    releaseSegments cs = [.word (String.ofList cs)] := by
  simp [releaseSegments, h, hcs]

/-- The release of a version text, from which its segments are read. -/
def release (version : String) : List Char :=
  (splitUpdate (dropMark (trim version.toList))).1

theorem segments_read (version : String) :
    (read version).segments = releaseSegments (release version) := rfl

/-- The characters that parts ignore at the beginning of a version. -/
def isIntroduction (c : Char) : Bool := isOperatorChar c || isBlank c

theorem isGap_of_isIntroduction {c : Char} (h : isIntroduction c = true) : IsGap c := by
  rcases Bool.or_eq_true _ _ ▸ h with h | h
  · exact isGap_of_isOperatorChar h
  · exact isGap_of_isBlank h

theorem underscore_notMem_of_isIntroduction {cs : List Char}
    (h : ∀ c ∈ cs, isIntroduction c = true) : '_' ∉ cs := by
  intro hc
  exact absurd (h '_' hc) (by decide)

/-- The release of a version text without a leading operator, from which its parts are cut. -/
def plainRelease (version : String) : List Char :=
  (splitUpdate (dropMark ((trim version.toList).dropWhile isIntroduction))).1

/-- Without an operator in front, both slicings start from one release. -/
theorem plainRelease_eq_release {version : String}
    (h : ∀ c ∈ (trim version.toList).head?, ¬ IsGap c) : plainRelease version = release version := by
  have hbare : (trim version.toList).dropWhile isIntroduction = trim version.toList := by
    apply dropWhile_eq_self
    intro c hc
    apply Bool.eq_false_iff.mpr
    intro hi
    exact h c hc (isGap_of_isIntroduction hi)
  rw [plainRelease, hbare, release]

theorem partsOf_eq (version : String) :
    partsOf version.toList =
      ((plainRelease version).splitOnP isPartSeparator).filter fun p => !p.isEmpty := rfl

theorem flatMap_scan_partsOf (version : String) :
    (partsOf version.toList).flatMap scan = scan (plainRelease version) := by
  rw [partsOf_eq, ← flatMap_scan_splitOnP (q := isPartSeparator)
    (fun _ => isGap_of_isPartSeparator)]
  generalize (plainRelease version).splitOnP isPartSeparator = pieces
  induction pieces with
  | nil => rfl
  | cons p ps ih =>
    cases p with
    | nil => simpa using ih
    | cons c cs => simpa using ih

/-- No part is empty or holds a separator. -/
theorem mem_partsOf {version : String} {p : List Char} (h : p ∈ partsOf version.toList) :
    p ≠ [] ∧ ∀ c ∈ p, isPartSeparator c = false := by
  rw [partsOf_eq, List.mem_filter] at h
  exact ⟨by simpa using h.2, splitOnP_clean h.1⟩

/-- A release that begins with a digit has a first part that does. -/
theorem partsOf_of_plainRelease_digit {version : String} {d : Char} (hd : d.isDigit = true)
    {ds : List Char} (h : plainRelease version = d :: ds) :
    ∃ x ps, partsOf version.toList = (d :: x) :: ps := by
  have hsep := isPartSeparator_eq_false (not_isGap_of_isDigit hd)
  -- The digit begins the first piece, which is not empty then.
  obtain ⟨x, xs, hx⟩ := List.exists_cons_of_ne_nil (List.splitOnP_ne_nil isPartSeparator ds)
  rw [partsOf_eq, h, List.splitOnP_cons_eq_if_modifyHead, hsep, hx]
  exact ⟨x, _, rfl⟩

/-! ## Alignment -/

/-- How the segments of a version lie in its parts. -/
inductive Aligned (segments : List Segment) : List (List Char) → Prop
  /-- The segments are those of the parts. -/
  | scanned {parts : List (List Char)} (hne : segments ≠ [])
      (hs : segments = parts.flatMap scan) : Aligned segments parts
  /-- Nothing in the text is a letter or a digit, and it is read as one word. -/
  | unread {parts : List (List Char)} (w : String) (hs : segments = [.word w])
      (hparts : parts.flatMap scan = []) : Aligned segments parts
  /-- A mark or an underscore stands behind an operator. The segments begin with a word, and the
  parts with a number. -/
  | shifted {p : List Char} {ps : List (List Char)} (w : String) (rest : List Segment) (n : Nat)
      (more : List Segment) (hs : segments = .word w :: rest) (hmark : dropMark p = p)
      (hp : scan p = .number n :: more) : Aligned segments (p :: ps)

/-- Either the segments begin with those of the first part, which then has no mark, or they begin
with a word where the first part, without its mark, begins with a number. -/
theorem Aligned.cases_cons {segments : List Segment} {p : List Char} {ps : List (List Char)}
    (h : Aligned segments (p :: ps)) :
    (dropMark p = p ∧ ∃ rest, segments = scan p ++ rest ∧
        (rest = ps.flatMap scan ∨ ps.flatMap scan = [] ∧ ∃ w, rest = [.word w])) ∨
      ∃ w rest n more, segments = .word w :: rest ∧ scan (dropMark p) = .number n :: more := by
  cases h with
  | scanned hne hs =>
    by_cases hmark : dropMark p = p
    · exact .inl ⟨hmark, _, hs, .inl rfl⟩
    · -- The mark is a segment of the version, and dropped from the part.
      obtain ⟨w, n, more, hp, hd⟩ := scan_of_dropMark_ne hmark
      rw [List.flatMap_cons, hp] at hs
      exact .inr ⟨w, _, n, more, hs, hd⟩
  | unread w hs hparts =>
    rw [List.flatMap_cons, List.append_eq_nil_iff] at hparts
    by_cases hmark : dropMark p = p
    · exact .inl ⟨hmark, [.word w], by rw [hs, hparts.1, List.nil_append],
        .inr ⟨hparts.2, w, rfl⟩⟩
    · obtain ⟨w, n, more, hp, -⟩ := scan_of_dropMark_ne hmark
      exact absurd (hp.symm.trans hparts.1) (by simp)
  | shifted w rest n more hs hmark hp => exact .inr ⟨w, rest, n, more, hs, hmark.symm ▸ hp⟩

/-- Numbers alone are the segments of the parts, the first of which has no mark. -/
theorem Aligned.exists_parts_of_isNumber {segments : List Segment} {parts : List (List Char)}
    (h : Aligned segments parts) (hnum : ∀ s ∈ segments, s.isNumber = true) :
    ∃ p ps, parts = p :: ps ∧ dropMark p = p ∧ segments = scan p ++ ps.flatMap scan := by
  have hword : ∀ w rest, segments ≠ .word w :: rest := by
    intro w rest hs
    exact absurd (hnum (.word w) (by simp [hs])) (by simp [Segment.isNumber])
  cases parts with
  | nil =>
    cases h with
    | scanned hne hs => exact absurd hs hne
    | unread w hs _ => exact absurd hs (hword w [])
  | cons p ps =>
    rcases h.cases_cons with ⟨hmark, rest, hs, hrest⟩ | ⟨w, rest, -, -, hs, -⟩
    · rcases hrest with rfl | ⟨-, w, rfl⟩
      · exact ⟨p, ps, rfl, hmark, hs⟩
      · exact absurd (hnum (.word w) (by simp [hs])) (by simp [Segment.isNumber])
    · exact absurd hs (hword w rest)

/-- Where both slicings see the same letters and digits, the version is scanned or unread. -/
theorem aligned_of_scan_eq {version : String} (hne : release version ≠ [])
    (h : scan (release version) = scan (plainRelease version)) :
    Aligned (read version).segments (partsOf version.toList) := by
  rw [segments_read]
  by_cases hs : scan (release version) = []
  · exact .unread _ (releaseSegments_of_scan_eq_nil hs hne)
      (by rw [flatMap_scan_partsOf, ← h, hs])
  · refine .scanned ?_ ?_
    · rwa [releaseSegments_of_scan_ne_nil hs]
    · rw [releaseSegments_of_scan_ne_nil hs, flatMap_scan_partsOf, h]

/-- An update number alone behind an operator: the operator is the release. -/
theorem aligned_of_underscore {version : String} {ops a : List Char} (hne : ops ≠ [])
    (hops : ∀ c ∈ ops, IsGap c) (ha : isDigits a = true) (hrelease : release version = ops)
    (hplain : plainRelease version = '_' :: a) :
    Aligned (read version).segments (partsOf version.toList) := by
  have hparts : partsOf version.toList = ['_' :: a] := by
    have hclean : ∀ c ∈ '_' :: a, isPartSeparator c = false := by
      rw [List.forall_mem_cons]
      refine ⟨rfl, ?_⟩
      intro c hc
      exact isPartSeparator_eq_false (not_isGap_of_mem_digits ha c hc)
    rw [partsOf_eq, hplain, List.splitOnP_eq_singleton hclean]
    rfl
  have hscan : scan ('_' :: a) = [.number (clamp (digitsValue a))] := by
    rw [scan_separator rfl rfl, scan_digits ha]
  rw [segments_read, hrelease, hparts,
    releaseSegments_of_scan_eq_nil (scan_eq_nil_of_gaps hops) hne]
  exact .shifted _ _ _ _ rfl (dropMark_cons_of_gap isGap_underscore a) hscan

/-- A mark behind an operator: it is read as a word, and the parts begin behind it. -/
theorem aligned_of_mark {version : String} {ops rest : List Char} {m d : Char}
    (hops : ∀ c ∈ ops, IsGap c) (hm : m.isAlpha = true) (hd : d.isDigit = true)
    (hrelease : release version = ops ++ m :: d :: rest)
    (hplain : plainRelease version = d :: rest) :
    Aligned (read version).segments (partsOf version.toList) := by
  have hscan : scan (release version) = .word (String.ofList [m]) :: scan (d :: rest) := by
    rw [hrelease, scan_gaps_append hops, scan_letter_digit hm hd]
  obtain ⟨x, ps, hparts⟩ := partsOf_of_plainRelease_digit hd hplain
  obtain ⟨n, more, hp⟩ := exists_scan_digit hd x
  rw [segments_read, releaseSegments_of_scan_ne_nil (by simp [hscan]), hscan, hparts]
  exact .shifted _ _ n more rfl (dropMark_cons_digit hd x) hp

section Operator

variable {version : String} {ops bare : List Char} (hne : ops ≠ [])
  (hintro : ∀ c ∈ ops, isIntroduction c = true) (htrim : trim version.toList = ops ++ bare)
include hne hintro htrim

/-- An operator hides a mark from the segments. -/
theorem release_of_operator : release version = (splitUpdate (ops ++ bare)).1 := by
  obtain ⟨o, os, rfl⟩ := List.exists_cons_of_ne_nil hne
  have ho : IsGap o := isGap_of_isIntroduction (hintro o List.mem_cons_self)
  rw [release, htrim, List.cons_append, dropMark_cons_of_gap ho]

/-- Without a mark behind the operator, only an update number with nothing in front of it makes a
difference. -/
theorem aligned_of_not_marked (hplain : plainRelease version = (splitUpdate bare).1) :
    Aligned (read version).segments (partsOf version.toList) := by
  have hgaps : ∀ c ∈ ops, IsGap c := fun c hc => isGap_of_isIntroduction (hintro c hc)
  have hunder : '_' ∉ ops := underscore_notMem_of_isIntroduction hintro
  have hrelease := release_of_operator hne hintro htrim
  by_cases hu : ∃ a, bare = '_' :: a ∧ isDigits a = true
  · obtain ⟨a, rfl, ha⟩ := hu
    rw [splitUpdate_underscore_digits ha] at hplain
    rw [splitUpdate_append_underscore_digits ha hne hunder] at hrelease
    exact aligned_of_underscore hne hgaps ha hrelease hplain
  · -- The update number, if there is one, is the same with and without the operator.
    simp only [not_exists, not_and, Bool.not_eq_true] at hu
    have hreleaseNe : release version ≠ [] := by
      rw [hrelease]
      exact splitUpdate_ne_nil (List.append_ne_nil_of_left_ne_nil hne bare)
    apply aligned_of_scan_eq hreleaseNe
    rw [hplain, hrelease, splitUpdate_append hunder hu, scan_gaps_append hgaps]

/-- A mark behind the operator belongs to the release, and to no part. -/
theorem aligned_of_marked {m d : Char} {ds : List Char} (hbare : bare = m :: d :: ds)
    (hm : m.isAlpha = true) (hd : d.isDigit = true)
    (hplain : plainRelease version = (splitUpdate (d :: ds)).1) :
    Aligned (read version).segments (partsOf version.toList) := by
  have hgaps : ∀ c ∈ ops, IsGap c := fun c hc => isGap_of_isIntroduction (hintro c hc)
  have hunder : '_' ∉ ops ++ [m] := by
    rw [List.mem_append, List.mem_singleton, not_or]
    refine ⟨underscore_notMem_of_isIntroduction hintro, ?_⟩
    rintro rfl
    exact not_isGap_of_isAlpha hm isGap_underscore
  have hdigit : ∀ a, d :: ds = '_' :: a → isDigits a = false := by
    intro a ha
    obtain ⟨rfl, -⟩ := List.cons.inj ha
    exact absurd isGap_underscore (not_isGap_of_isDigit hd)
  obtain ⟨rest, hrest⟩ := exists_splitUpdate_cons d ds
  have hrelease : release version = ops ++ m :: d :: rest := by
    rw [release_of_operator hne hintro htrim, hbare, List.append_cons,
      splitUpdate_append hunder hdigit, hrest, List.append_assoc, List.singleton_append]
  exact aligned_of_mark hgaps hm hd hrelease (hplain.trans hrest)

end Operator

/-- **The segments of a version lie in its parts**, in one of three ways. What the parts ignore
at the beginning of the text are operators and white space; only a mark or an underscore right
behind them is seen by one slicing and not by the other. -/
theorem aligned_read {version : String} (h : ¬ AllBlank version.toList) :
    Aligned (read version).segments (partsOf version.toList) := by
  have htrim : trim version.toList ≠ [] := by
    intro he
    exact h ((trim_eq_nil_iff _).mp he)
  have hne : release version ≠ [] := splitUpdate_ne_nil (dropMark_ne_nil htrim)
  obtain ⟨ops, bare, hsplit, hintro, hbare⟩ : ∃ ops bare, trim version.toList = ops ++ bare ∧
      (∀ c ∈ ops, isIntroduction c = true) ∧
      (trim version.toList).dropWhile isIntroduction = bare :=
    ⟨_, _, List.takeWhile_append_dropWhile.symm, List.all_eq_true.mp List.all_takeWhile, rfl⟩
  have hplain : plainRelease version = (splitUpdate (dropMark bare)).1 := by
    rw [plainRelease, hbare]
  by_cases hops : ops = []
  · -- Without an operator both slicings start from the same text.
    apply aligned_of_scan_eq hne
    rw [hplain, release, hsplit, hops, List.nil_append]
  · rcases dropMark_cases bare with hmark | ⟨m, d, ds, hmarked, hm, hd, hmark⟩ <;>
      rw [hmark] at hplain
    · exact aligned_of_not_marked hops hintro hsplit hplain
    · exact aligned_of_marked hops hintro hsplit hmarked hm hd hplain

end UpdatePlanner.Version
