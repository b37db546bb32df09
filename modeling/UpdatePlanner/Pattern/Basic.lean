/-!
# The shape of a name pattern

A name pattern covers whole names, byte by byte in UTF-8.  Its shape is a regular expression with
one kind of repetition, the gap, which any bytes fill.

## Main definitions

* `ByteClass` — a set of bytes, given by spans or by what it leaves out;
* `Shape` — the regular expressions of patterns;
* `Shape.Covers` — the byte strings that a shape describes;
* `Shape.reach` — the places of a byte string that a shape leads to from marked ones;
* `Shape.accepts` — whether a shape covers a byte string as a whole.

## Main results

* `Shape.getElem?_reach` — a shape leads over exactly the bytes that it describes;
* `Shape.accepts_iff` — matching is covering.
-/

namespace UpdatePlanner

/-- A set of bytes: those in some span, or those in none. -/
structure ByteClass where
  negated : Bool
  /-- First and last byte of each span. -/
  spans : List (UInt8 × UInt8)
  deriving DecidableEq, Repr

namespace ByteClass

/-- Whether a byte belongs to the class. -/
def contains (k : ByteClass) (b : UInt8) : Bool :=
  (k.spans.any fun (first, last) => first ≤ b && b ≤ last) != k.negated

def all : ByteClass := ⟨true, []⟩

def only (b : UInt8) : ByteClass := ⟨false, [(b, b)]⟩

@[simp] theorem contains_all (b : UInt8) : all.contains b = true := rfl

@[simp] theorem contains_only (a b : UInt8) : (only a).contains b = true ↔ a = b := by
  simp only [contains, only, List.any_cons, List.any_nil, Bool.or_false, bne_iff_ne, ne_eq,
    Bool.not_eq_false, Bool.and_eq_true, decide_eq_true_eq]
  constructor
  · rintro ⟨h, g⟩; exact UInt8.le_antisymm h g
  · rintro rfl; exact ⟨UInt8.le_refl _, UInt8.le_refl _⟩

end ByteClass

/-- The regular expressions that name patterns denote. -/
inductive Shape where
  | empty
  | byte (k : ByteClass)
  /-- Any bytes, or none. -/
  | gap
  | seq (s t : Shape)
  | alt (s t : Shape)
  deriving DecidableEq, Repr

namespace Shape

/-- The shape describes the bytes as a whole. -/
inductive Covers : Shape → List UInt8 → Prop where
  | empty : Covers .empty []
  | byte {k : ByteClass} {b : UInt8} (h : k.contains b = true) : Covers (.byte k) [b]
  | gap (bs : List UInt8) : Covers .gap bs
  | seq {s t : Shape} {bs cs : List UInt8} (hs : Covers s bs) (ht : Covers t cs) :
      Covers (.seq s t) (bs ++ cs)
  | inl {s t : Shape} {bs : List UInt8} (hs : Covers s bs) : Covers (.alt s t) bs
  | inr {s t : Shape} {bs : List UInt8} (ht : Covers t bs) : Covers (.alt s t) bs

/-! ## Matching

A byte string of length `n` has `n + 1` places, in front of each byte and at the end.  A set of
places is a list of `n + 1` marks, and a shape moves marks forward over what it describes. -/

/-- The marked places and all behind the first of them. -/
def spread : Bool → List Bool → List Bool
  | _, [] => []
  | seen, m :: ms => (seen || m) :: spread (seen || m) ms

@[simp] theorem length_spread (seen : Bool) (ms : List Bool) :
    (spread seen ms).length = ms.length := by
  induction ms generalizing seen with
  | nil => rfl
  | cons m ms ih => simp [spread, ih]

theorem getElem?_spread {seen : Bool} {ms : List Bool} {j : Nat} :
    (spread seen ms)[j]? = some true ↔
      j < ms.length ∧ (seen = true ∨ ∃ i, i ≤ j ∧ ms[i]? = some true) := by
  induction ms generalizing seen j with
  | nil => simp [spread]
  | cons m ms ih =>
    cases j with
    | zero => simp [spread]
    | succ j =>
      rw [spread, List.getElem?_cons_succ, ih, List.length_cons, Nat.succ_lt_succ_iff,
        Bool.or_eq_true]
      refine and_congr_right fun _ => ?_
      constructor
      · rintro ((h | h) | ⟨i, hi, h⟩)
        · exact Or.inl h
        · exact Or.inr ⟨0, Nat.zero_le _, by simp [h]⟩
        · exact Or.inr ⟨i + 1, Nat.succ_le_succ hi, by simpa using h⟩
      · rintro (h | ⟨i, hi, h⟩)
        · exact Or.inl (Or.inl h)
        · cases i with
          | zero => exact Or.inl (Or.inr (by simpa using h))
          | succ i => exact Or.inr ⟨i, Nat.le_of_succ_le_succ hi, by simpa using h⟩

/-- The places that the shape can lead to from the marked ones. -/
def reach : Shape → List UInt8 → List Bool → List Bool
  | empty, _, ms => ms
  | byte k, bs, ms => false :: List.zipWith (fun b m => m && k.contains b) bs ms
  | gap, _, ms => spread false ms
  | seq s t, bs, ms => t.reach bs (s.reach bs ms)
  | alt s t, bs, ms => List.zipWith (· || ·) (s.reach bs ms) (t.reach bs ms)

theorem length_reach {s : Shape} {bs : List UInt8} {ms : List Bool}
    (h : ms.length = bs.length + 1) : (s.reach bs ms).length = bs.length + 1 := by
  induction s generalizing ms with
  | empty => exact h
  | byte k => simp [reach, h]
  | gap => simp [reach, h]
  | seq s t hs ht => exact ht (hs h)
  | alt s t hs ht => simp [reach, hs h, ht h]

/-- A place is reached iff the bytes since some marked place are what the shape describes. -/
theorem getElem?_reach {s : Shape} {bs : List UInt8} {ms : List Bool} {j : Nat}
    (h : ms.length = bs.length + 1) :
    (s.reach bs ms)[j]? = some true ↔
      ∃ i p r, ms[i]? = some true ∧ s.Covers p ∧ bs.drop i = p ++ r ∧ i + p.length = j := by
  induction s generalizing ms j with
  | empty =>
    constructor
    · exact fun hj => ⟨j, [], bs.drop j, hj, .empty, rfl, rfl⟩
    · rintro ⟨i, p, r, hi, hp, _, rfl⟩
      cases hp; exact hi
  | byte k =>
    constructor
    · intro hj
      cases j with
      | zero => simp [reach] at hj
      | succ i =>
        simp only [reach, List.getElem?_cons_succ, List.getElem?_zipWith] at hj
        split at hj
        · next b m hb hm =>
          simp only [Option.some.injEq, Bool.and_eq_true] at hj
          obtain ⟨hi, rfl⟩ := List.getElem?_eq_some_iff.mp hb
          exact ⟨i, [bs[i]], bs.drop (i + 1), by rw [hm, hj.1], .byte hj.2,
            by simp, rfl⟩
        · simp at hj
    · rintro ⟨i, p, r, hi, hp, hd, rfl⟩
      cases hp with
      | @byte _ b hk =>
        have hb : bs[i]? = some b := by
          rw [← List.head?_drop, hd]; rfl
        simp [reach, List.getElem?_zipWith, hb, hi, hk]
  | gap =>
    rw [reach, getElem?_spread]
    constructor
    · rintro ⟨hj, hf | ⟨i, hi, hm⟩⟩
      · simp at hf
      · refine ⟨i, (bs.drop i).take (j - i), (bs.drop i).drop (j - i), hm, .gap _,
          (List.take_append_drop ..).symm, ?_⟩
        rw [List.length_take, List.length_drop]; omega
    · rintro ⟨i, p, r, hi, _, hd, rfl⟩
      have hlen := congrArg List.length hd
      have hlt := (List.getElem?_eq_some_iff.mp hi).1
      rw [List.length_drop, List.length_append] at hlen
      exact ⟨by omega, Or.inr ⟨i, Nat.le_add_right .., hi⟩⟩
  | seq s t hs ht =>
    rw [reach, ht (length_reach h)]
    constructor
    · rintro ⟨i, p, r, hi, hp, hd, rfl⟩
      obtain ⟨a, q, u, ha, hq, hu, rfl⟩ := (hs h).mp hi
      refine ⟨a, q ++ p, r, ha, .seq hq hp, ?_, by rw [List.length_append]; omega⟩
      rw [← List.drop_drop, hu, List.drop_left] at hd
      rw [hu, hd, List.append_assoc]
    · rintro ⟨a, p, r, ha, hp, hd, rfl⟩
      cases hp with
      | @seq _ _ q p hq hp =>
        refine ⟨a + q.length, p, r,
          (hs h).mpr ⟨a, q, p ++ r, ha, hq, by rw [hd, List.append_assoc], rfl⟩, hp, ?_, ?_⟩
        · rw [← List.drop_drop, hd, List.append_assoc, List.drop_left]
        · rw [List.length_append]; omega
  | alt s t hs ht =>
    have key : (reach (alt s t) bs ms)[j]? = some true ↔
        (s.reach bs ms)[j]? = some true ∨ (t.reach bs ms)[j]? = some true := by
      simp only [reach, List.getElem?_zipWith]
      have hl : (s.reach bs ms).length = (t.reach bs ms).length := by
        rw [length_reach h, length_reach h]
      by_cases hj : j < (s.reach bs ms).length
      · rw [List.getElem?_eq_getElem hj, List.getElem?_eq_getElem (hl ▸ hj)]
        simp
      · rw [List.getElem?_eq_none (Nat.le_of_not_lt hj),
          List.getElem?_eq_none (hl ▸ Nat.le_of_not_lt hj)]
        simp
    rw [key, hs h, ht h]
    constructor
    · rintro (⟨i, p, r, hi, hp, hd, rfl⟩ | ⟨i, p, r, hi, hp, hd, rfl⟩)
      · exact ⟨i, p, r, hi, .inl hp, hd, rfl⟩
      · exact ⟨i, p, r, hi, .inr hp, hd, rfl⟩
    · rintro ⟨i, p, r, hi, hp, hd, rfl⟩
      cases hp with
      | inl hp => exact Or.inl ⟨i, p, r, hi, hp, hd, rfl⟩
      | inr hp => exact Or.inr ⟨i, p, r, hi, hp, hd, rfl⟩

/-- Whether the shape covers the bytes as a whole: it leads from the first place to the last. -/
def accepts (s : Shape) (bs : List UInt8) : Bool :=
  (s.reach bs (true :: bs.map fun _ => false))[bs.length]? = some true

theorem accepts_iff {s : Shape} {bs : List UInt8} : s.accepts bs = true ↔ s.Covers bs := by
  rw [accepts, decide_eq_true_eq, getElem?_reach (by simp)]
  constructor
  · rintro ⟨i, p, r, hi, hp, hd, hlen⟩
    cases i with
    | zero =>
      rw [List.drop_zero] at hd
      have hl := congrArg List.length hd
      rw [List.length_append] at hl
      have hr : r = [] := List.eq_nil_of_length_eq_zero (by omega)
      rwa [hd, hr, List.append_nil]
    | succ i =>
      rw [List.getElem?_cons_succ, List.getElem?_map] at hi
      cases hb : bs[i]? <;> rw [hb] at hi <;> simp at hi
  · exact fun hc => ⟨0, bs, [], rfl, hc, by simp, Nat.zero_add _⟩

def bytes (cs : List Char) : List UInt8 :=
  cs.flatMap String.utf8EncodeChar

/-- One shape after another, for a list of shapes. -/
def sequence : List Shape → Shape
  | [] => .empty
  | s :: ss => ss.foldl .seq s

/-- One of the shapes of a list, of which the first is given apart. -/
def choice (s : Shape) (ss : List Shape) : Shape :=
  ss.foldl .alt s

end Shape

end UpdatePlanner
