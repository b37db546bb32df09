/-!
# White space and trimming

Text that people write in manifests is trimmed and cut at white space.  White space is the
Unicode property `White_Space`, which has twenty-five characters.

## Main definitions

* `Text.isBlank` — the white-space characters;
* `Text.trim` — a text without the white space around it;
* `Text.AllBlank` — a text that holds nothing but white space.

## Main results

* `Text.isBlank_of_isWhitespace` — every white-space character of ASCII is blank;
* `Text.trim_eq_nil_iff` — exactly the blank texts trim to nothing.
-/

namespace UpdatePlanner.Text

/-- The characters with the Unicode property `White_Space`. -/
def isBlank (c : Char) : Bool :=
  let n := c.toNat
  (0x9 ≤ n && n ≤ 0xD) || n == 0x20 || n == 0x85 || n == 0xA0 || n == 0x1680 ||
    (0x2000 ≤ n && n ≤ 0x200A) || n == 0x2028 || n == 0x2029 || n == 0x202F || n == 0x205F ||
    n == 0x3000

theorem isBlank_of_isWhitespace {c : Char} (h : c.isWhitespace = true) : isBlank c = true := by
  simp only [Char.isWhitespace, Bool.or_eq_true, decide_eq_true_eq] at h
  rcases h with ((rfl | rfl) | rfl) | rfl <;> decide

/-- A text without the white space in front of it. -/
def trimLeft (cs : List Char) : List Char :=
  cs.dropWhile isBlank

/-- A text without the white space behind it. -/
def trimRight (cs : List Char) : List Char :=
  (cs.reverse.dropWhile isBlank).reverse

/-- A text without the white space around it. -/
def trim (cs : List Char) : List Char :=
  trimRight (trimLeft cs)

/-- A text that holds nothing but white space. -/
def AllBlank (cs : List Char) : Prop :=
  ∀ c ∈ cs, isBlank c = true

instance (cs : List Char) : Decidable (AllBlank cs) :=
  inferInstanceAs (Decidable (∀ c ∈ cs, isBlank c = true))

theorem dropWhile_isBlank_eq_nil_iff (cs : List Char) :
    cs.dropWhile isBlank = [] ↔ AllBlank cs := by
  induction cs with
  | nil => simp [AllBlank]
  | cons c cs ih =>
    by_cases h : isBlank c = true
    · simp only [List.dropWhile_cons_of_pos h, ih, AllBlank, List.forall_mem_cons, h, true_and]
    · simp [List.dropWhile_cons_of_neg h, AllBlank, h]

theorem trim_eq_nil_iff (cs : List Char) : trim cs = [] ↔ AllBlank cs := by
  constructor
  · intro h
    have hr : AllBlank (trimLeft cs).reverse := by
      rw [← dropWhile_isBlank_eq_nil_iff]
      simpa [trim, trimRight] using h
    have hl : AllBlank (trimLeft cs) := fun c hc => hr c (List.mem_reverse.mpr hc)
    have hn : trimLeft cs = [] := by
      cases ht : trimLeft cs with
      | nil => rfl
      | cons d ds =>
        have hd : isBlank d = true := hl d (by simp [ht])
        have := List.head?_dropWhile_not isBlank cs
        rw [show cs.dropWhile isBlank = d :: ds from ht] at this
        simp [hd] at this
    exact (dropWhile_isBlank_eq_nil_iff cs).mp hn
  · intro h
    have : trimLeft cs = [] := (dropWhile_isBlank_eq_nil_iff cs).mpr h
    simp [trim, trimRight, this]

end UpdatePlanner.Text
