/-!
# Decimal numbers of bounded size

Version segments, update suffixes and durations are written in ASCII decimal digits and held in
64 bits.  What does not fit is clamped, refused or counted as absent, as each use says; the rule
for all three is the comparison with `maxNumber`.

## Main definitions

* `Text.maxNumber` — the largest number that is held;
* `Text.digitsValue` — the value of a run of digits, of any length;
* `Text.number?` — the value of a text of digits that fits.

## Main results

* `Text.number?_eq_some_iff` — which texts are numbers, and their values.
-/

namespace UpdatePlanner.Text

/-- The largest number that is held: all 64 bits set. -/
def maxNumber : Nat := UInt64.size - 1

/-- The number itself, or the largest one when it does not fit. -/
def clamp (n : Nat) : Nat := min n maxNumber

theorem clamp_le (n : Nat) : clamp n ≤ maxNumber := Nat.min_le_right _ _

theorem clamp_eq_self {n : Nat} (h : n ≤ maxNumber) : clamp n = n := Nat.min_eq_left h

theorem clamp_mono {m n : Nat} (h : m ≤ n) : clamp m ≤ clamp n := by
  simp only [clamp]; omega

/-- The value of a run of decimal digits. -/
def digitsValue (cs : List Char) : Nat :=
  Nat.ofDigitChars 10 cs 0

/-- A non-empty run of ASCII digits. -/
def isDigits (cs : List Char) : Bool :=
  !cs.isEmpty && cs.all Char.isDigit

theorem isDigits_iff {cs : List Char} :
    isDigits cs = true ↔ cs ≠ [] ∧ ∀ c ∈ cs, c.isDigit = true := by
  simp [isDigits]

theorem exists_cons_of_isDigits {cs : List Char} (h : isDigits cs = true) :
    ∃ d ds, cs = d :: ds ∧ d.isDigit = true ∧ ∀ c ∈ ds, c.isDigit = true := by
  obtain ⟨hne, hall⟩ := isDigits_iff.mp h
  obtain ⟨d, ds, rfl⟩ := List.exists_cons_of_ne_nil hne
  exact ⟨d, ds, rfl, List.forall_mem_cons.mp hall⟩

/-- The value of a non-empty run of digits, unless it is too large to be held. -/
def number? (cs : List Char) : Option Nat :=
  if isDigits cs && decide (digitsValue cs ≤ maxNumber) then some (digitsValue cs) else none

theorem number?_eq_some_iff {cs : List Char} {n : Nat} :
    number? cs = some n ↔ isDigits cs = true ∧ digitsValue cs ≤ maxNumber ∧ digitsValue cs = n := by
  simp only [number?, Option.ite_none_right_eq_some, Bool.and_eq_true, decide_eq_true_eq,
    Option.some.injEq, and_assoc]

/-- The decimal digits of a number, without leading zeros. -/
def digits (n : Nat) : List Char :=
  Nat.toDigits 10 n

theorem isDigits_digits (n : Nat) : isDigits (digits n) = true := by
  rw [isDigits_iff]
  refine ⟨Nat.toDigits_ne_nil, ?_⟩
  intro c hc
  exact Nat.isDigit_of_mem_toDigits (by decide) (by decide) hc

@[simp] theorem digitsValue_digits (n : Nat) : digitsValue (digits n) = n :=
  Nat.ofDigitChars_toDigits (by decide) (by decide)

/-- Cuts a text at the last occurrence of `sep`. -/
def splitLast (sep : Char) : List Char → Option (List Char × List Char)
  | [] => none
  | c :: cs =>
    match splitLast sep cs with
    | some (before, after) => some (c :: before, after)
    | none => if c = sep then some ([], cs) else none

end UpdatePlanner.Text
