import UpdatePlanner.Pattern.Set

/-!
# How deep patterns go

Only choices make the expression of a pattern deep. All other tokens go a few levels deep at most,
and so do the patterns that a set looks up without searching a name for them.

## Main definitions

* `Pattern.nestedChoices n`: a letter inside so many choices

## Main results

* `depth_le_iff`: a pattern goes as deep as its deepest token
* `Lookup.depth_le_of_ofTokens`: a pattern goes deep only if names are searched for it
* `PatternSet.exists_of_searchFault?_eq_some`,
  `PatternSet.isTooDeep_eq_false_of_searchFault?_eq_none`: a set reports a pattern that goes too
  deep, if there is one
* `PatternSet.read?_nestedChoices`: a set does not take too many choices in each other
-/

namespace UpdatePlanner

open Pattern

namespace Pattern

theorem foldl_max_le_iff {ns : List Nat} {m n : Nat} :
    ns.foldl max m ≤ n ↔ m ≤ n ∧ ∀ k ∈ ns, k ≤ n := by
  induction ns generalizing m with
  | nil => simp
  | cons k ks ih => rw [List.foldl_cons, ih, Nat.max_le, List.forall_mem_cons, and_assoc]

/-- **A pattern goes as deep as its deepest token.** -/
theorem depth_le_iff {tokens : List Token} {n : Nat} :
    depth tokens ≤ n ↔ ∀ t ∈ tokens, t.depth ≤ n := by
  rw [depth, foldl_max_le_iff, List.forall_mem_map]
  exact and_iff_right (Nat.zero_le n)

theorem depth_cons_le_iff {t : Token} {tokens : List Token} {n : Nat} :
    depth (t :: tokens) ≤ n ↔ t.depth ≤ n ∧ depth tokens ≤ n := by
  simp only [depth_le_iff, List.forall_mem_cons]

end Pattern

namespace Lookup

variable {tokens : List Token}

/-- Characters have no depth. -/
theorem depth_le_of_literalText? (h : (literalText? tokens).isSome = true) (n : Nat) :
    depth tokens ≤ n := by
  induction tokens with
  | nil => exact Nat.zero_le n
  | cons t ts ih =>
    rw [depth_cons_le_iff]
    cases t with
    | literal c =>
      refine ⟨Nat.zero_le n, ih ?_⟩
      cases hts : literalText? ts with
      | none => simp_all [literalText?]
      | some cs => rfl
    | _ => simp [literalText?] at h

theorem depth_le_of_isTextWithout {excluded : List Char}
    (h : isTextWithout excluded tokens = true) (n : Nat) : depth tokens ≤ n := by
  apply depth_le_of_literalText?
  obtain ⟨cs, hcs, -⟩ := (Option.any_eq_true _ _).mp h
  exact Option.isSome_of_eq_some hcs

theorem depth_le_of_isWhole (h : isWhole tokens = true) (n : Nat) : depth tokens ≤ n :=
  depth_le_of_literalText? (Bool.and_eq_true_iff.mp h).2 n

theorem depth_le_of_isLastComponent (h : isLastComponent tokens = true) : depth tokens ≤ 4 := by
  unfold isLastComponent at h
  split at h
  · exact depth_cons_le_iff.mpr ⟨Nat.le_refl 4, depth_le_of_isTextWithout h 4⟩
  · cases h

theorem depth_le_of_isExtension (h : isExtension tokens = true) : depth tokens ≤ 4 := by
  unfold isExtension at h
  split at h
  · have hts := depth_le_of_isTextWithout h 4
    simpa [depth_cons_le_iff, Token.depth] using hts
  · have hts := depth_le_of_isTextWithout h 4
    simpa [depth_cons_le_iff, Token.depth] using hts
  · cases h

theorem depth_le_of_isEnd (h : isEnd tokens = true) : depth tokens ≤ 4 := by
  have htext {ts : List Token} (hts : isEnd.isText ts = true) : depth ts ≤ 4 :=
    depth_le_of_isWhole (Bool.and_eq_true_iff.mp hts).2 4
  unfold isEnd at h
  split at h
  · simpa [depth_cons_le_iff, Token.depth] using htext h
  · have hts := depth_le_of_literalText? (Bool.and_eq_true_iff.mp h).2 4
    simpa [depth_cons_le_iff, Token.depth] using hts
  · simpa [depth_cons_le_iff, Token.depth] using htext h
  · cases h

theorem depth_le_of_isBeginning (h : isBeginning tokens = true) : depth tokens ≤ 4 := by
  have hreverse : depth tokens.reverse ≤ 4 := by
    unfold isBeginning at h
    split at h
    · next ts hts =>
      rw [hts, depth_cons_le_iff]
      exact ⟨by decide, depth_le_of_isWhole h 4⟩
    · next ts hts =>
      rw [hts, depth_cons_le_iff]
      exact ⟨by decide, depth_le_of_literalText? h 4⟩
    · cases h
  simpa [depth_le_iff] using hreverse

/-- **A pattern goes deep only if names are searched for it.** -/
theorem depth_le_of_ofTokens (h : ofTokens tokens = .compared ∨ ofTokens tokens = .component) :
    depth tokens ≤ 4 := by
  unfold ofTokens at h
  split at h
  · next hlast => exact depth_le_of_isLastComponent hlast
  · split at h
    · next hwhole => exact depth_le_of_isWhole hwhole 4
    · split at h
      · next hextension => exact depth_le_of_isExtension hextension
      · split at h
        · next hends =>
          rcases Bool.or_eq_true_iff.mp hends with hbeginning | hend
          · exact depth_le_of_isBeginning hbeginning
          · exact depth_le_of_isEnd hend
        · cases hextension : extension? [] tokens.reverse <;> simp [hextension] at h

/-- Names are searched for a pattern that goes too deep, one way or the other. -/
theorem searched_or_filtered_of_isTooDeep (h : PatternSet.isTooDeep tokens = true) :
    ofTokens tokens = .searched ∨ ∃ extension, ofTokens tokens = .filtered extension := by
  have hdeep : 4 < depth tokens := by
    have hlimit : nestingLimit < depth tokens + 1 := of_decide_eq_true h
    unfold nestingLimit at hlimit
    omega
  cases hlookup : ofTokens tokens with
  | compared => exact absurd (depth_le_of_ofTokens (.inl hlookup)) (Nat.not_le.mpr hdeep)
  | component => exact absurd (depth_le_of_ofTokens (.inr hlookup)) (Nat.not_le.mpr hdeep)
  | filtered extension => exact .inr ⟨extension, rfl⟩
  | searched => exact .inl rfl

end Lookup

namespace PatternSet

variable {patterns : List (List Token)}

/-- **A set reports a pattern that goes too deep**, by its number and possibly with its
expression. -/
theorem exists_of_searchFault?_eq_some {e : PolicyFailure} (h : searchFault? patterns = some e) :
    ∃ tokens ∈ patterns, isTooDeep tokens = true ∧
      ∃ shown number, (shown = "" ∨ shown = expression tokens) ∧ e = searchFault shown number := by
  unfold searchFault? at h
  split at h
  · -- Patterns that are searched for one by one are shown.
    next tokens hfind =>
    obtain rfl := Option.some.inj h
    exact ⟨tokens, (List.mem_filter.mp (List.mem_of_find?_eq_some hfind)).1,
      List.find?_some hfind, _, _, .inr rfl, rfl⟩
  · -- Of those that are searched for together, there is only a number.
    obtain ⟨number, hnumber, rfl⟩ := Option.map_eq_some_iff.mp h
    obtain ⟨hlt, hdeep, -⟩ := List.findIdx?_eq_some_iff_getElem.mp hnumber
    exact ⟨_, (List.mem_filter.mp (List.getElem_mem hlt)).1, hdeep, _, _, .inl rfl, rfl⟩

/-- **A set reports nothing only if no pattern goes too deep.** -/
theorem isTooDeep_eq_false_of_searchFault?_eq_none (h : searchFault? patterns = none)
    {tokens : List Token} (hmem : tokens ∈ patterns) : isTooDeep tokens = false := by
  unfold searchFault? at h
  split at h
  · cases h
  · next hfiltered =>
    have hsearched := List.findIdx?_eq_none_iff.mp (Option.map_eq_none_iff.mp h)
    rw [Bool.eq_false_iff]
    intro hdeep
    -- A pattern that goes deep is among those that one of the two looks at.
    rcases Lookup.searched_or_filtered_of_isTooDeep hdeep with hlookup | ⟨extension, hlookup⟩
    · have hin : tokens ∈ searchedTokens patterns :=
        List.mem_filter.mpr ⟨hmem, decide_eq_true hlookup⟩
      rw [hsearched tokens hin] at hdeep
      cases hdeep
    · have hin : tokens ∈ filteredTokens patterns :=
        List.mem_filter.mpr ⟨hmem, by simp [hlookup]⟩
      exact List.find?_eq_none.mp hfiltered tokens hin hdeep

end PatternSet

/-! ## Choices in choices -/

namespace Pattern

/-- Choices of one alternative each, as many as are given, and a letter inside of them. -/
def nestedToken : Nat → Token
  | 0 => .literal 'a'
  | n + 1 => .choice (branch? [nestedToken n]).toList

/-- The pattern with so many choices around a letter. -/
def nestedChoices (n : Nat) : String :=
  String.ofList (List.replicate n '\x7b' ++ 'a' :: List.replicate n '\x7d')

theorem branch?_singleton {t : Token} (hshape : t.shape?.isSome = true) (hwidth : t.width = 1) :
    ∃ s, branch? [t] = some ⟨s, source [t], t.depth⟩ := by
  obtain ⟨s, hs⟩ := Option.isSome_iff_exists.mp hshape
  refine ⟨s, ?_⟩
  simp [branch?, hs, hwidth, depth, Shape.sequence]

/-- Every choice adds a level. -/
theorem nestedToken_spec (n : Nat) :
    (nestedToken n).shape?.isSome = true ∧ (nestedToken n).width = 1 ∧
      (nestedToken n).depth = n := by
  induction n with
  | zero => decide
  | succ n ih =>
    obtain ⟨s, hbranch⟩ := branch?_singleton ih.1 ih.2.1
    rw [nestedToken, hbranch]
    exact ⟨rfl, rfl, congrArg (· + 1) ih.2.2⟩

theorem readTokens_nestedChoices (n : Nat) (before : Option Char) (d : Draft) (rest : List Char) :
    ∃ last, readTokens before d
        (List.replicate n '\x7b' ++ 'a' :: (List.replicate n '\x7d' ++ rest)) =
      readTokens (some last) (d.push (nestedToken n)) rest := by
  induction n generalizing before d rest with
  | zero =>
    refine ⟨'a', ?_⟩
    simp [readTokens, nestedToken]
  | succ n ih =>
    -- The inner choices are read in the outermost one, with its closing bracket behind them.
    obtain ⟨last, h⟩ := ih (some '\x7b') d.openChoice ('\x7d' :: rest)
    have hopen (cs : List Char) :
        readTokens before d ('\x7b' :: cs) = readTokens (some '\x7b') d.openChoice cs := by
      simp [readTokens]
    have hclose : (d.openChoice.push (nestedToken n)).closeChoice =
        .ok (d.push (nestedToken (n + 1))) := by
      cases hbranch : branch? [nestedToken n] <;>
        simp [Draft.closeChoice, Draft.push, Draft.openChoice, nestedToken, hbranch]
    refine ⟨'\x7d', ?_⟩
    rw [List.replicate_succ, List.cons_append, hopen, List.replicate_succ', List.append_assoc,
      List.singleton_append, h, readTokens, hclose]

theorem read?_nestedChoices (n : Nat) : read? (nestedChoices n) = .ok [nestedToken n] := by
  obtain ⟨last, h⟩ := readTokens_nestedChoices n none .start []
  rw [List.append_nil] at h
  rw [read?, nestedChoices, String.toList_ofList, h, readTokens]
  rfl

end Pattern

theorem Lookup.ofTokens_choice (bs : List Branch) : ofTokens [.choice bs] = .searched := rfl

/-- A set does not take a pattern with too many choices in each other. -/
theorem PatternSet.read?_nestedChoices {n : Nat} (h : nestingLimit ≤ n) :
    read? [nestedChoices n] = .error (searchFault "" 0) := by
  have hread : readAll? [nestedChoices n] = .ok [(nestedChoices n, [nestedToken n])] := by
    simp only [readAll?, List.mapM_cons, Pattern.read?_nestedChoices, List.mapM_nil]
    rfl
  have hdeep : isTooDeep [nestedToken n] = true := by
    have hnesting : nesting [nestedToken n] = n + 1 := by
      simp [nesting, depth, (nestedToken_spec n).2.2]
    rw [isTooDeep, hnesting]
    exact decide_eq_true (Nat.lt_succ_of_le h)
  have hlookup : Lookup.ofTokens [nestedToken n] = .searched := by
    cases n with
    | zero => exact absurd h (by decide)
    | succ n => exact Lookup.ofTokens_choice _
  have hfault : searchFault? [[nestedToken n]] = some (searchFault "" 0) := by
    simp [searchFault?, filteredTokens, searchedTokens, hlookup, hdeep]
  rw [read?, hread]
  simp only [List.map_cons, List.map_nil, hfault]

end UpdatePlanner
