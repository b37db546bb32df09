import UpdatePlanner.Group.Basic
import UpdatePlanner.Proofs.Traversal

/-!
# Checks, one after another

Conditions and groups are checked while they are set up: whether a text is a pattern, whether a
ceiling has a known name, and, once all patterns of a list have been read, whether names can be
searched for them. A reading that is put together from others makes their checks one after another
and stops at the first that has something to report. So what it reports is known from the list of
its checks alone.

## Main definitions

* `Pattern.IsMalformed`, `Pattern.IsTooDeep`: texts that are no patterns, and patterns that names
  cannot be searched for
* `Check`, `Check.Reports`: what is checked, and what a check reports
* `FirstReport checks e`: the first check that has something to report reports it
* `Makes checks x`: a reading that makes the checks of a list, in their order

## Main results

* `Makes.bind`, `Makes.mapM`: readings that are put together
* `Makes.exists_error_iff`: a reading fails exactly if a check has something to report
-/

namespace UpdatePlanner

/-! ## Texts as patterns -/

namespace Pattern

/-- A text that is no pattern. -/
def IsMalformed (text : String) : Prop :=
  ∃ fault, read? text = .error fault

/-- A text that is a pattern whose expression goes deeper than a search allows. -/
def IsTooDeep (text : String) : Prop :=
  ∃ tokens, read? text = .ok tokens ∧ nestingLimit < nesting tokens

instance : DecidablePred IsMalformed := fun text =>
  decidable_of_iff ((read? text).isOk = false) <| by
    unfold IsMalformed
    cases read? text <;> simp [Except.isOk, Except.toBool]

instance : DecidablePred IsTooDeep := fun text =>
  decidable_of_iff
    ((read? text).toOption.any (fun tokens => decide (nestingLimit < nesting tokens)) = true) <| by
    unfold IsTooDeep
    cases read? text <;> simp [Except.toOption]

theorem IsMalformed.not_isTooDeep {text : String} (h : IsMalformed text) : ¬ IsTooDeep text := by
  rintro ⟨tokens, hread, -⟩
  obtain ⟨fault, hfault⟩ := h
  cases hread.symm.trans hfault

end Pattern

/-! ## Checks -/

/-- What is checked before anything is planned. -/
inductive Check where
  /-- Whether a text is a pattern. -/
  | pattern (text : String)
  /-- Whether the ceiling of a group has a known name, if there is one. -/
  | ceiling (group : String) (value : Option String)
  /-- Whether names can be searched for all the patterns of a list. -/
  | search (texts : List String)

namespace Check

open Pattern

/-- What a check reports. Where names cannot be searched for the patterns of a list, one that goes
too deep is reported, by its number and possibly with its expression. -/
inductive Reports : Check → PolicyFailure → Prop
  | pattern {text : String} {fault : PatternFault} (h : read? text = .error fault) :
      Reports (.pattern text) (.invalidPattern text fault.message)
  | ceiling {group value : String} (h : value ∉ ["major", "minor", "patch"]) :
      Reports (.ceiling group (some value)) (.invalidGroup group GroupRules.ceilingKey value)
  | search {texts : List String} {text : String} {tokens : List Token} (mem : text ∈ texts)
      (read : read? text = .ok tokens) (deep : nestingLimit < nesting tokens) {shown : String}
      (h : shown = "" ∨ shown = expression tokens) (number : Nat) :
      Reports (.search texts) (PatternSet.searchFault shown number)

/-- The check has nothing to report. -/
def Passes (c : Check) : Prop :=
  ∀ e, ¬ c.Reports e

theorem exists_reports_pattern_iff {text : String} :
    (∃ e, (pattern text).Reports e) ↔ IsMalformed text := by
  constructor
  · rintro ⟨_, ⟨h⟩⟩
    exact ⟨_, h⟩
  · rintro ⟨fault, h⟩
    exact ⟨_, .pattern h⟩

theorem exists_reports_ceiling_iff {group : String} {value : Option String} :
    (∃ e, (ceiling group value).Reports e) ↔
      ∃ v, value = some v ∧ v ∉ ["major", "minor", "patch"] := by
  constructor
  · rintro ⟨_, h⟩
    cases h with
    | ceiling h => exact ⟨_, rfl, h⟩
  · rintro ⟨v, rfl, h⟩
    exact ⟨_, .ceiling h⟩

theorem exists_reports_search_iff {texts : List String} :
    (∃ e, (search texts).Reports e) ↔ ∃ text ∈ texts, IsTooDeep text := by
  constructor
  · rintro ⟨_, h⟩
    cases h with
    | search mem read deep => exact ⟨_, mem, _, read, deep⟩
  · rintro ⟨text, mem, tokens, read, deep⟩
    exact ⟨_, .search mem read deep (.inl rfl) 0⟩

end Check

/-- What the first check of a list that has something to report reports. -/
def FirstReport (checks : List Check) (e : PolicyFailure) : Prop :=
  ∃ before c after, checks = before ++ c :: after ∧ (∀ b ∈ before, b.Passes) ∧ c.Reports e

/-- A reading that makes the checks of a list in their order. It fails with what the first check
reports that has something to report, and goes through only if none has. -/
structure Makes {α : Type} (checks : List Check) (x : Except PolicyFailure α) : Prop where
  firstReport : ∀ e, x = .error e → FirstReport checks e
  passes : ∀ a, x = .ok a → ∀ c ∈ checks, c.Passes

namespace Makes

variable {α β : Type} {checks more : List Check} {x : Except PolicyFailure α}

theorem ok (a : α) : Makes [] (.ok a) :=
  ⟨fun _ h => (nomatch h), fun _ _ _ h => (nomatch h)⟩

theorem error_of_reports {c : Check} {e : PolicyFailure} (h : c.Reports e) :
    Makes [c] (.error e : Except PolicyFailure α) where
  firstReport _ he := ⟨[], c, [], rfl, by simp, Except.error.inj he ▸ h⟩
  passes _ ha := nomatch ha

theorem ok_of_passes {c : Check} (h : ¬ ∃ e, c.Reports e) (a : α) : Makes [c] (.ok a) where
  firstReport _ he := nomatch he
  passes _ _ _ hb e he := h ⟨e, List.mem_singleton.mp hb ▸ he⟩

/-- **One reading after another** makes the checks of the first one and then those of the second,
which it comes to only if the first one goes through. -/
theorem bind {f : α → Except PolicyFailure β} (hx : Makes checks x)
    (hf : ∀ a, x = .ok a → Makes more (f a)) : Makes (checks ++ more) (x >>= f) := by
  cases x with
  | error e =>
    -- The checks of the second reading stand behind the one that reports.
    refine ⟨fun e' he => ?_, fun _ h => (nomatch h)⟩
    obtain ⟨before, c, after, rfl, hbefore, hc⟩ :=
      hx.firstReport e' (congrArg _ (Except.error.inj he))
    exact ⟨before, c, after ++ more, by simp, hbefore, hc⟩
  | ok a =>
    -- All checks of the first reading stand in front of whatever the second one comes to.
    have hchecks := hx.passes a rfl
    refine ⟨fun e he => ?_, fun b hb => ?_⟩
    · obtain ⟨before, c, after, rfl, hbefore, hc⟩ := (hf a rfl).firstReport e he
      exact ⟨checks ++ before, c, after, by simp,
        List.forall_mem_append.mpr ⟨hchecks, hbefore⟩, hc⟩
    · exact List.forall_mem_append.mpr ⟨hchecks, (hf a rfl).passes b hb⟩

theorem map (hx : Makes checks x) (f : α → β) : Makes checks (x.map f) := by
  have h := hx.bind (f := fun a => .ok (f a)) fun a _ => ok (f a)
  rw [List.append_nil] at h
  cases x <;> exact h

/-- **A list is read member by member**, with the checks of each member in its turn. -/
theorem mapM {xs : List β} {f : β → Except PolicyFailure α} {checksOf : β → List Check}
    (h : ∀ b ∈ xs, Makes (checksOf b) (f b)) : Makes (xs.flatMap checksOf) (xs.mapM f) := by
  induction xs with
  | nil => exact ok []
  | cons b bs ih =>
    obtain ⟨hb, hbs⟩ := List.forall_mem_cons.mp h
    rw [List.mapM_cons, List.flatMap_cons]
    exact hb.bind fun _ _ => (ih hbs).map _

/-- **A reading fails exactly if one of its checks has something to report.** -/
theorem exists_error_iff (hx : Makes checks x) :
    (∃ e, x = .error e) ↔ ∃ c ∈ checks, ∃ e, c.Reports e := by
  constructor
  · rintro ⟨e, he⟩
    obtain ⟨before, c, after, rfl, -, hc⟩ := hx.firstReport e he
    exact ⟨c, by simp, e, hc⟩
  · rintro ⟨c, hc, e, he⟩
    cases x with
    | error e' => exact ⟨e', rfl⟩
    | ok a => exact absurd he (hx.passes a rfl c hc e)

end Makes

end UpdatePlanner
