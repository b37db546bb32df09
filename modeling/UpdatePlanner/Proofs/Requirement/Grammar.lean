import UpdatePlanner.Proofs.Traversal
import UpdatePlanner.Proofs.Text.Cutting
import UpdatePlanner.Requirement.Reader

/-!
# The grammar of requirements

A constraint may be cut in several ways: `>= 1` begins with `>=` and with `>`, and any text without
white space may be a version. The reader tries the operators in turn, and refuses what it has cut if
a character of an operator is left in front of the version. The grammar knows no order: its versions
begin with no character of an operator, so the operator is all that stands in front of the version
but white space. Both come to the same. Nothing is read that the grammar does not know, and nothing
is refused that it knows.

## Main definitions

* `IsWord`: the versions of the grammar
* `Comparator.Written`: a constraint as the grammar has it, with the comparator that it denotes

## Main results

* `Comparator.cut?_symbol_append`, `Comparator.cut?_of_not_operator`: where a constraint is cut
* `Comparator.read?_eq_ok_iff_written`: constraints are read as the grammar has them
* `Requirement.read?_accepts_grammar`: so are requirements
-/

namespace UpdatePlanner

open Text

/-! ## Words -/

/-- A version as a constraint may name it: a word that begins with no character of an operator. -/
structure IsWord (word : List Char) : Prop where
  ne_nil : word ≠ []
  not_blank : ∀ c ∈ word, isBlank c = false
  not_operator : ∀ c ∈ word.head?, Version.isOperatorChar c = false

/-- Operators are made of no white space. -/
theorem isOperatorChar_eq_false_of_isBlank {c : Char} (h : isBlank c = true) :
    Version.isOperatorChar c = false := by
  rw [Bool.eq_false_iff]
  intro hop
  simp only [Version.isOperatorChar, Bool.or_eq_true, beq_iff_eq] at hop
  rcases hop with (((rfl | rfl) | rfl) | rfl) | rfl <;> exact absurd h (by decide)

namespace IsWord

variable {word : List Char} (h : IsWord word)
include h

theorem trim_eq : trim word = word :=
  trim_eq_self_of_not_blank h.not_blank

/-- In front of a word, white space or not, stands no character of an operator. -/
theorem head?_append {between : List Char} (hbetween : AllBlank between) :
    ∀ c ∈ (between ++ word).head?, Version.isOperatorChar c = false := by
  intro c hc
  cases between with
  | nil => exact h.not_operator c hc
  | cons b bs =>
    obtain rfl : b = c := Option.some.inj hc
    exact isOperatorChar_eq_false_of_isBlank (hbetween b List.mem_cons_self)

end IsWord

namespace Comparator

/-- A constraint as the grammar has it, and the comparator that it denotes: a version alone, or an
operator and a version, with white space around and between them. -/
inductive Written : List Char → Comparator → Prop
  | bare {before word after : List Char} (hbefore : AllBlank before) (hword : IsWord word)
      (hafter : AllBlank after) :
      Written (before ++ (word ++ after)) ⟨.equal, Version.read (String.ofList word)⟩
  | operator (op : Operator) {before between word after : List Char} (hbefore : AllBlank before)
      (hbetween : AllBlank between) (hword : IsWord word) (hafter : AllBlank after) :
      Written (before ++ (op.symbol.toList ++ (between ++ word) ++ after))
        ⟨op, Version.read (String.ofList word)⟩

/-! ## Where a constraint is cut -/

/-- An operator has no white space in front of it, and a word none behind it. -/
theorem trim_symbol_append (op : Operator) (between : List Char) {word : List Char}
    (hne : word ≠ []) (hblank : ∀ c ∈ word, isBlank c = false) :
    trim (op.symbol.toList ++ (between ++ word)) = op.symbol.toList ++ (between ++ word) := by
  apply trim_eq_self
  · cases op <;> simp [Operator.symbol] <;> decide
  · intro c hc
    rw [← List.append_assoc, List.getLast?_append, List.getLast?_eq_some_getLast hne,
      Option.some_or, Option.mem_some_iff] at hc
    exact hblank c (hc ▸ List.getLast_mem hne)

theorem word?_eq_some_iff {cs word : List Char} :
    word? cs = some word ↔
      ∃ before, AllBlank before ∧ before ++ word = cs ∧ word ≠ [] ∧
        ∀ c ∈ word, isBlank c = false := by
  have hword : word? cs = some word ↔
      trimLeft cs = word ∧ word ≠ [] ∧ ∀ c ∈ word, isBlank c = false := by
    simp only [word?, Option.ite_none_left_eq_some, Bool.or_eq_true, not_or, Option.some.injEq]
    constructor
    · rintro ⟨⟨hne, hblank⟩, rfl⟩
      simp_all
    · rintro ⟨rfl, hne, hblank⟩
      simp_all
  rw [hword]
  constructor
  · rintro ⟨rfl, hne, hblank⟩
    obtain ⟨before, hbefore, hcs⟩ := exists_blank_append_trimLeft cs
    exact ⟨before, hbefore, hcs, hne, hblank⟩
  · rintro ⟨before, hbefore, rfl, hne, hblank⟩
    refine ⟨?_, hne, hblank⟩
    rw [trimLeft_append_of_blank hbefore, trimLeft_eq_self]
    intro c hc
    exact hblank c (List.mem_of_mem_head? hc)

theorem word?_append {between word : List Char} (hbetween : AllBlank between)
    (hword : IsWord word) : word? (between ++ word) = some word :=
  word?_eq_some_iff.mpr ⟨between, hbetween, rfl, hword.ne_nil, hword.not_blank⟩

theorem word?_self {word : List Char} (hword : IsWord word) : word? word = some word :=
  word?_append (fun _ h => absurd h List.not_mem_nil) hword

section Cut

variable {cs word : List Char} {op : Operator}

/-- No operator stands where no character of one does. -/
theorem isPrefixOf?_symbol (h : ∀ c ∈ cs.head?, Version.isOperatorChar c = false) :
    op.symbol.toList.isPrefixOf? cs = none := by
  cases cs with
  | nil => cases op <;> rfl
  | cons c cs =>
    have hc := h c rfl
    simp only [Version.isOperatorChar, Bool.or_eq_false_iff] at hc
    cases op <;> simp [Operator.symbol, isPrefixOf?_cons, Bool.beq_comm (b := c), hc]

theorem cut?_of_not_operator (h : ∀ c ∈ cs.head?, Version.isOperatorChar c = false) :
    cut? cs = (word? cs).map fun word => (.equal, word) := by
  simp [cut?, isPrefixOf?_symbol h, Operator.all]

/-- An operator is not taken for a longer one, as no character of an operator follows. Of the shorter
ones that it begins with none is taken before it. -/
theorem cut?_symbol_append (op : Operator) (h : ∀ c ∈ cs.head?, Version.isOperatorChar c = false)
    (hword : word? cs = some word) : cut? (op.symbol.toList ++ cs) = some (op, word) := by
  cases cs with
  | nil => cases hword
  | cons c cs =>
    -- Only `=` makes an operator longer.
    have hc : ('=' == c) = false := by
      rw [beq_eq_false_iff_ne]
      rintro rfl
      exact absurd (h '=' rfl) (by decide)
    cases op <;>
      simp [cut?, Operator.all, Operator.symbol, isPrefixOf?_nil, isPrefixOf?_cons, hc, hword]

/-- Whatever is cut is an operator in front of a version, or a version alone. -/
theorem cut?_eq_some (h : cut? cs = some (op, word)) :
    (∃ rest, op.symbol.toList ++ rest = cs ∧ word? rest = some word) ∨
      op = .equal ∧ word? cs = some word := by
  simp only [cut?, Option.orElse_eq_orElse, Option.orElse_eq_or, Option.or_eq_some_iff] at h
  rcases h with h | ⟨-, h⟩
  · obtain ⟨op', -, hop⟩ := List.exists_of_findSome?_eq_some h
    obtain ⟨rest, hrest, hop⟩ := Option.bind_eq_some_iff.mp hop
    obtain ⟨word', hword, hop⟩ := Option.bind_eq_some_iff.mp hop
    cases hop
    exact .inl ⟨rest, List.isPrefixOf?_eq_some_iff_append_eq.mp hrest, hword⟩
  · obtain ⟨word', hword, he⟩ := Option.map_eq_some_iff.mp h
    cases he
    exact .inr ⟨rfl, hword⟩

end Cut

/-! ## Reading a constraint -/

variable {cs : List Char} {c : Comparator}

/-- A constraint is read if it can be cut, and no character of an operator is left in front of the
version. -/
theorem read?_eq_ok_iff_cut? :
    read? cs = .ok c ↔
      ∃ op word, cut? (trim cs) = some (op, word) ∧
        (∀ x ∈ word.head?, Version.isOperatorChar x = false) ∧
        ⟨op, Version.read (String.ofList word)⟩ = c := by
  simp only [read?]
  generalize trim cs = trimmed
  split
  · next hempty =>
    -- Nothing can be cut from nothing.
    rw [List.isEmpty_iff.mp hempty]
    refine iff_of_false nofun ?_
    rintro ⟨op, word, hcut, -⟩
    cases hcut
  · cases hcut : cut? trimmed with
    | none => simp
    | some cut =>
      obtain ⟨op, word⟩ := cut
      dsimp only
      split
      · next hop =>
        obtain ⟨x, hx, hxop⟩ := (Option.any_eq_true _ _).mp hop
        refine iff_of_false nofun ?_
        rintro ⟨_, _, hcut, hword, -⟩
        cases hcut
        exact Bool.false_ne_true ((hword x hx).symm.trans hxop)
      · next hop =>
        have hword : ∀ x ∈ word.head?, Version.isOperatorChar x = false := by
          intro x hx
          exact Bool.eq_false_iff.mpr fun hxop => hop ((Option.any_eq_true _ _).mpr ⟨x, hx, hxop⟩)
        constructor
        · intro h
          exact ⟨op, word, rfl, hword, Except.ok.inj h⟩
        · rintro ⟨_, _, hcut, -, rfl⟩
          cases hcut
          rfl

/-- A version that was cut off is a word if no character of an operator is left in front of it. -/
theorem isWord_of_word? {word : List Char} (h : word? cs = some word)
    (hop : ∀ x ∈ word.head?, Version.isOperatorChar x = false) :
    ∃ before, AllBlank before ∧ before ++ word = cs ∧ IsWord word := by
  obtain ⟨before, hbefore, hcs, hne, hblank⟩ := word?_eq_some_iff.mp h
  exact ⟨before, hbefore, hcs, hne, hblank, hop⟩

/-- **A constraint is read exactly as the grammar has it.** -/
theorem read?_eq_ok_iff_written : read? cs = .ok c ↔ Written cs c := by
  rw [read?_eq_ok_iff_cut?]
  constructor
  · rintro ⟨op, word, hcut, hop, rfl⟩
    -- Which operators were tried before this one does not matter: `hop` excludes all wrong cuts.
    obtain ⟨before, after, hbefore, hafter, hcs⟩ := exists_blank_append_trim cs
    rcases cut?_eq_some hcut with ⟨rest, hrest, hword⟩ | ⟨rfl, hword⟩
    · obtain ⟨between, hbetween, rfl, hw⟩ := isWord_of_word? hword hop
      rw [← hcs, ← hrest]
      exact .operator op hbefore hbetween hw hafter
    · -- What was skipped in front of the version stands in front of the whole constraint.
      obtain ⟨before', hbefore', htrim, hw⟩ := isWord_of_word? hword hop
      have hfront : AllBlank (before ++ before') := by
        intro x hx
        exact (List.mem_append.mp hx).elim (hbefore x) (hbefore' x)
      rw [← hcs, ← htrim, List.append_assoc, ← List.append_assoc before]
      exact .bare hfront hw hafter
  · intro h
    cases h with
    | bare hbefore hword hafter =>
      rw [trim_append_of_blank hbefore hafter, hword.trim_eq]
      refine ⟨.equal, _, ?_, hword.not_operator, rfl⟩
      rw [cut?_of_not_operator hword.not_operator, word?_self hword, Option.map_some]
    | operator op hbefore hbetween hword hafter =>
      rw [trim_append_of_blank hbefore hafter,
        trim_symbol_append op _ hword.ne_nil hword.not_blank]
      have hcut := cut?_symbol_append op (hword.head?_append hbetween)
        (word?_append hbetween hword)
      exact ⟨op, _, hcut, hword.not_operator, rfl⟩

/-- No constraint is blank. -/
theorem Written.not_allBlank (h : Written cs c) : ¬ AllBlank cs := by
  intro hblank
  have hword : ∀ word, IsWord word → (∀ x ∈ word, x ∈ cs) → False := by
    intro word hword hsub
    obtain ⟨x, xs, rfl⟩ := List.exists_cons_of_ne_nil hword.ne_nil
    have hx := hword.not_blank x List.mem_cons_self
    exact Bool.false_ne_true (hx.symm.trans (hblank x (hsub x List.mem_cons_self)))
  cases h with
  | bare hbefore hw hafter => exact hword _ hw fun x hx => by simp [hx]
  | operator op hbefore hbetween hw hafter => exact hword _ hw fun x hx => by simp [hx]

end Comparator

/-! ## Reading a requirement -/

namespace Requirement

theorem read?_of_allBlank {text : String} (h : AllBlank text.toList) : read? text = .ok any := by
  rw [read?, (trim_eq_nil_iff _).mpr h]
  rfl

theorem mapM_read?_eq_ok_iff {parts : List (List Char)} {cs : List Comparator} :
    parts.mapM Comparator.read? = .ok cs ↔ List.Forall₂ Comparator.Written parts cs := by
  rw [mapM_eq_ok_iff_forall₂]
  simp only [Comparator.read?_eq_ok_iff_written]

section Parts

variable {text : String}

/-- A text that is not blank is read constraint by constraint. -/
theorem read?_eq_ok_iff_of_not_allBlank (h : ¬ AllBlank text.toList) {r : Requirement} :
    read? text = .ok r ↔
      List.Forall₂ Comparator.Written (text.toList.splitOn ',') r.comparators := by
  have hempty : (trim text.toList).isEmpty = false := by
    rw [List.isEmpty_eq_false_iff, ne_eq, trim_eq_nil_iff]
    exact h
  rw [← mapM_read?_eq_ok_iff, read?, hempty, if_neg Bool.false_ne_true]
  cases (text.toList.splitOn ',').mapM Comparator.read? with
  | error fault => exact iff_of_false nofun nofun
  | ok comparators =>
    constructor
    · rintro ⟨⟩
      rfl
    · rintro ⟨⟩
      rfl

/-- It can be read if each of its constraints can. -/
theorem exists_read?_iff_of_not_allBlank (h : ¬ AllBlank text.toList) :
    (∃ r, read? text = .ok r) ↔
      ∀ part ∈ text.toList.splitOn ',', ∃ c, Comparator.Written part c := by
  constructor
  · rintro ⟨r, hr⟩ part hpart
    have hparts := mapM_read?_eq_ok_iff.mpr ((read?_eq_ok_iff_of_not_allBlank h).mp hr)
    obtain ⟨c, -, hc⟩ := exists_mem_of_mapM hparts hpart
    exact ⟨c, Comparator.read?_eq_ok_iff_written.mp hc⟩
  · intro hparts
    obtain ⟨cs, hcs⟩ : ∃ cs, (text.toList.splitOn ',').mapM Comparator.read? = .ok cs := by
      apply exists_mapM_eq_ok
      intro part hpart
      obtain ⟨c, hc⟩ := hparts part hpart
      exact ⟨c, Comparator.read?_eq_ok_iff_written.mpr hc⟩
    exact ⟨⟨cs⟩, (read?_eq_ok_iff_of_not_allBlank h).mpr (mapM_read?_eq_ok_iff.mp hcs)⟩

/-- A blank text is one constraint, and that is blank. -/
theorem not_written_of_allBlank (h : AllBlank text.toList) {cs : List Comparator} :
    ¬ List.Forall₂ Comparator.Written (text.toList.splitOn ',') cs := by
  have hcomma : ',' ∉ text.toList := fun hmem => absurd (h ',' hmem) (by decide)
  rw [List.splitOn_eq_singleton hcomma, List.forall₂_cons_left_iff]
  rintro ⟨c, _, hc, -⟩
  exact hc.not_allBlank h

end Parts

/-- **The reader accepts exactly the grammar of requirements**: a blank text, which is the
requirement `>= 0`, and constraints with commas between them, which are read in order as the grammar
has them. -/
theorem read?_accepts_grammar (text : String) :
    ((∃ r, read? text = .ok r) ↔
        AllBlank text.toList ∨ ∀ part ∈ text.toList.splitOn ',', ∃ c, Comparator.Written part c) ∧
      ∀ r, read? text = .ok r ↔
        AllBlank text.toList ∧ r = ⟨[⟨.atLeast, Version.read "0"⟩]⟩ ∨
          List.Forall₂ Comparator.Written (text.toList.splitOn ',') r.comparators := by
  by_cases hblank : AllBlank text.toList
  · have hread : read? text = .ok ⟨[⟨.atLeast, Version.read "0"⟩]⟩ := read?_of_allBlank hblank
    refine ⟨iff_of_true ⟨_, hread⟩ (.inl hblank), ?_⟩
    intro r
    rw [hread, or_iff_left (not_written_of_allBlank hblank), Except.ok.injEq, eq_comm]
    exact (and_iff_right hblank).symm
  · refine ⟨?_, ?_⟩
    · rw [or_iff_right hblank]
      exact exists_read?_iff_of_not_allBlank hblank
    · intro r
      rw [or_iff_right fun h => hblank h.1]
      exact read?_eq_ok_iff_of_not_allBlank hblank

end Requirement

end UpdatePlanner
