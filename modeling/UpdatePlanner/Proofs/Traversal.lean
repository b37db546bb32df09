import Mathlib.Data.List.Forall2

/-!
# Readings that may fail

Readers answer with a result or with the first failure. A result tells what each of the readings
it was put together from has answered.

## Main results

* `bind_eq_ok_iff`: a result of one reading after another
* `mapM_eq_ok_iff`, `mapM_eq_ok_iff_forall₂`: the results of reading a list are those of its members
* `mapM_eq_error_iff`: the failure of reading a list is that of the first member that fails
* `mapM_filter`: what is read of the members that are kept
* `mapM_map_eq_map`: other members that are read alike
-/

namespace UpdatePlanner

variable {ε α β : Type}

instance decidableEqExcept [DecidableEq ε] [DecidableEq α] : DecidableEq (Except ε α)
  | .error e, .error e' => decidable_of_iff (e = e') (by simp)
  | .ok a, .ok a' => decidable_of_iff (a = a') (by simp)
  | .error _, .ok _ => isFalse (by simp)
  | .ok _, .error _ => isFalse (by simp)

theorem bind_eq_ok_iff {x : Except ε α} {f : α → Except ε β} {b : β} :
    x >>= f = .ok b ↔ ∃ a, x = .ok a ∧ f a = .ok b := by
  cases x with
  | error e =>
    constructor
    · intro h
      cases h
    · rintro ⟨_, h, _⟩
      cases h
  | ok a =>
    constructor
    · intro h
      exact ⟨a, rfl, h⟩
    · rintro ⟨a', ha, h⟩
      cases ha
      exact h

theorem toOption_eq_some_iff {x : Except ε α} {a : α} : x.toOption = some a ↔ x = .ok a := by
  cases x <;> simp [Except.toOption]

section MapM

variable {f : α → Except ε β} {xs : List α} {ys : List β}

/-- The results of reading a list are those of reading its members, place by place. -/
theorem mapM_eq_ok_iff : xs.mapM f = .ok ys ↔ xs.map f = ys.map .ok := by
  induction xs generalizing ys with
  | nil => cases ys <;> simp [pure, Except.pure]
  | cons x xs ih =>
    rw [List.mapM_cons, bind_eq_ok_iff, List.map_cons]
    constructor
    · rintro ⟨y, hy, h⟩
      obtain ⟨zs, hzs, h⟩ := bind_eq_ok_iff.mp h
      obtain rfl : y :: zs = ys := Except.ok.inj h
      rw [List.map_cons, hy, ih.mp hzs]
    · intro h
      cases ys with
      | nil => simp at h
      | cons y ys =>
        rw [List.map_cons, List.cons.injEq] at h
        exact ⟨y, h.1, bind_eq_ok_iff.mpr ⟨ys, ih.mpr h.2, rfl⟩⟩

/-- The first reading that fails decides. -/
theorem mapM_cons_error {x : α} {e : ε} (h : f x = .error e) : (x :: xs).mapM f = .error e := by
  rw [List.mapM_cons, h]
  rfl

theorem mapM_cons_eq_error_iff {x : α} {y : β} {e : ε} (h : f x = .ok y) :
    (x :: xs).mapM f = .error e ↔ xs.mapM f = .error e := by
  have hcons : (x :: xs).mapM f = (xs.mapM f).map (y :: ·) := by
    rw [List.mapM_cons, h]
    cases xs.mapM f <;> rfl
  rw [hcons]
  cases xs.mapM f <;> simp [Except.map]

/-- **A failure is that of the first member that cannot be read.** -/
theorem mapM_eq_error_iff {e : ε} :
    xs.mapM f = .error e ↔
      ∃ before x after, xs = before ++ x :: after ∧ f x = .error e ∧
        ∀ y ∈ before, ∃ z, f y = .ok z := by
  induction xs with
  | nil =>
    constructor
    · intro h
      cases h
    · rintro ⟨before, x, after, h, -⟩
      simp at h
  | cons x xs ih =>
    cases hx : f x with
    | error e' =>
      rw [mapM_cons_error hx]
      constructor
      · intro h
        exact ⟨[], x, xs, rfl, hx.trans (congrArg Except.error (Except.error.inj h)), by simp⟩
      · rintro ⟨before, x', after, h, hfail, hread⟩
        -- What stands before the failure can be read, and so it is `x` that fails.
        cases before with
        | nil =>
          obtain ⟨rfl, -⟩ := List.cons.inj h
          exact congrArg Except.error (Except.error.inj (hx.symm.trans hfail))
        | cons b bs =>
          obtain ⟨rfl, -⟩ := List.cons.inj h
          obtain ⟨z, hz⟩ := hread x List.mem_cons_self
          cases hx.symm.trans hz
    | ok y =>
      rw [mapM_cons_eq_error_iff hx, ih]
      constructor
      · rintro ⟨before, x', after, rfl, hfail, hread⟩
        exact ⟨x :: before, x', after, rfl, hfail, List.forall_mem_cons.mpr ⟨⟨y, hx⟩, hread⟩⟩
      · rintro ⟨before, x', after, h, hfail, hread⟩
        cases before with
        | nil =>
          obtain ⟨rfl, -⟩ := List.cons.inj h
          cases hx.symm.trans hfail
        | cons b bs =>
          obtain ⟨rfl, rfl⟩ := List.cons.inj h
          exact ⟨bs, x', after, rfl, hfail, (List.forall_mem_cons.mp hread).2⟩

/-- A failure is that of some member. -/
theorem exists_mem_of_mapM_error {e : ε} (h : xs.mapM f = .error e) :
    ∃ x ∈ xs, f x = .error e := by
  obtain ⟨before, x, after, rfl, hx, -⟩ := mapM_eq_error_iff.mp h
  exact ⟨x, by simp, hx⟩

theorem exists_mem_of_mapM (h : xs.mapM f = .ok ys) {x : α} (hx : x ∈ xs) :
    ∃ y ∈ ys, f x = .ok y := by
  have hfx : f x ∈ xs.map f := List.mem_map_of_mem hx
  rw [mapM_eq_ok_iff.mp h, List.mem_map] at hfx
  obtain ⟨y, hy, he⟩ := hfx
  exact ⟨y, hy, he.symm⟩

theorem exists_mem_of_mem_mapM (h : xs.mapM f = .ok ys) {y : β} (hy : y ∈ ys) :
    ∃ x ∈ xs, f x = .ok y := by
  have hok : Except.ok y ∈ ys.map (Except.ok (ε := ε)) := List.mem_map_of_mem hy
  rw [← mapM_eq_ok_iff.mp h] at hok
  exact List.mem_map.mp hok

/-- The results are those of the members, whatever their order. -/
theorem mem_iff_of_mapM (h : xs.mapM f = .ok ys) {y : β} : y ∈ ys ↔ ∃ x ∈ xs, f x = .ok y := by
  constructor
  · exact exists_mem_of_mem_mapM h
  · rintro ⟨x, hx, hread⟩
    obtain ⟨y', hy', hread'⟩ := exists_mem_of_mapM h hx
    obtain rfl : y = y' := Except.ok.inj (hread.symm.trans hread')
    exact hy'

/-- Where every member can be read, the list can. -/
theorem exists_mapM_eq_ok (h : ∀ x ∈ xs, ∃ y, f x = .ok y) : ∃ ys, xs.mapM f = .ok ys := by
  cases hxs : xs.mapM f with
  | ok ys => exact ⟨ys, rfl⟩
  | error e =>
    obtain ⟨x, hx, he⟩ := exists_mem_of_mapM_error hxs
    obtain ⟨y, hy⟩ := h x hx
    cases hy.symm.trans he

/-- Member and result stand in the relation of a reading and its answer. -/
theorem mapM_eq_ok_iff_forall₂ : xs.mapM f = .ok ys ↔ List.Forall₂ (fun x y => f x = .ok y) xs ys := by
  rw [mapM_eq_ok_iff, ← List.forall₂_eq_eq_eq, List.forall₂_map_left_iff,
    List.forall₂_map_right_iff]

/-- What is read of the members that are kept is kept of what is read. -/
theorem mapM_filter {p : α → Bool} {q : β → Bool} (h : xs.mapM f = .ok ys)
    (hpq : ∀ x y, f x = .ok y → p x = q y) :
    (xs.filter p).mapM f = .ok (ys.filter q) := by
  rw [mapM_eq_ok_iff_forall₂] at h ⊢
  refine List.rel_filter ?_ h
  intro x y hread
  exact Bool.eq_iff_iff.mp (hpq x y hread)

/-- A reading that answers with other results of the same members. -/
theorem mapM_eq_ok_map {γ : Type} {f' : α → Except ε γ} {k : β → γ} (h : xs.mapM f = .ok ys)
    (hk : ∀ x y, f x = .ok y → f' x = .ok (k y)) : xs.mapM f' = .ok (ys.map k) := by
  rw [mapM_eq_ok_iff_forall₂] at h ⊢
  rw [List.forall₂_map_right_iff]
  exact h.imp hk

/-- Members that are changed before they are read, and results that are changed afterwards: the
first failure is the same. -/
theorem mapM_map_eq_map {γ δ : Type} {f' : γ → Except ε δ} {k : α → γ} {l : β → δ}
    (h : ∀ x ∈ xs, f' (k x) = (f x).map l) :
    (xs.map k).mapM f' = (xs.mapM f).map (List.map l) := by
  induction xs with
  | nil => rfl
  | cons x xs ih =>
    obtain ⟨hx, hxs⟩ := List.forall_mem_cons.mp h
    rw [List.map_cons, List.mapM_cons, List.mapM_cons, hx, ih hxs]
    cases f x with
    | error e => rfl
    | ok y => cases xs.mapM f <;> rfl

theorem exists_getElem?_of_mapM (h : xs.mapM f = .ok ys) {i : Nat} {x : α}
    (hx : xs[i]? = some x) : ∃ y, ys[i]? = some y ∧ f x = .ok y := by
  have hi : (xs.map f)[i]? = (ys.map Except.ok)[i]? := by rw [mapM_eq_ok_iff.mp h]
  rw [List.getElem?_map, hx, Option.map_some, List.getElem?_map, eq_comm,
    Option.map_eq_some_iff] at hi
  obtain ⟨y, hy, he⟩ := hi
  exact ⟨y, hy, he.symm⟩

end MapM

end UpdatePlanner
