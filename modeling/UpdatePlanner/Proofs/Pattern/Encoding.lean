import UpdatePlanner.Pattern.Basic

/-!
# Cutting encoded names

Names are matched byte by byte, so a shape may cut a name inside a character. It does not where what
follows the cut begins with the first byte of some character, as no other byte of an encoding looks
like a first one. Such a cut of the bytes is a cut of the name.

## Main definitions

* `StartsCharacter bs`: the bytes begin with the first byte of a character, if there are any

## Main results

* `exists_append_of_bytes_eq`: a cut in front of a character is a cut of the name
* `exists_cons_of_bytes_eq`: a character is told by its bytes
-/

namespace UpdatePlanner.Shape

/-- The bytes begin with the first byte of a character, if there are any. -/
def StartsCharacter (bs : List UInt8) : Prop :=
  ∀ b ∈ bs.head?, b.IsUTF8FirstByte

@[simp] theorem bytes_nil : bytes [] = [] := rfl

@[simp] theorem bytes_cons (c : Char) (cs : List Char) :
    bytes (c :: cs) = String.utf8EncodeChar c ++ bytes cs := rfl

@[simp] theorem bytes_append (cs ds : List Char) : bytes (cs ++ ds) = bytes cs ++ bytes ds :=
  List.flatMap_append

@[simp] theorem bytes_eq_nil_iff {cs : List Char} : bytes cs = [] ↔ cs = [] := by
  cases cs <;> simp

/-- What stands behind a place inside a character begins no character. -/
theorem startsCharacter_of_utf8EncodeChar {c : Char} {p q : List UInt8}
    (h : String.utf8EncodeChar c = p ++ q) (hq : StartsCharacter q) : p = [] ∨ q = [] := by
  cases q with
  | nil => exact .inr rfl
  | cons b bs =>
    have hlength : p.length < (String.utf8EncodeChar c).length := by simp [h]
    have hbyte : (String.utf8EncodeChar c)[p.length] = b := by simp [h]
    have hfirst : b.IsUTF8FirstByte := hq b rfl
    rw [← hbyte, UInt8.isUTF8FirstByte_getElem_utf8EncodeChar] at hfirst
    exact .inl (List.eq_nil_of_length_eq_zero hfirst)

/-- The encoding of a character begins with a first byte. -/
theorem startsCharacter_utf8EncodeChar_append (c : Char) (bs : List UInt8) :
    StartsCharacter (String.utf8EncodeChar c ++ bs) := by
  intro b hb
  obtain ⟨b', bs', hc⟩ := List.exists_cons_of_ne_nil (String.utf8EncodeChar_ne_nil (c := c))
  rw [hc] at hb
  obtain rfl : b' = b := Option.some.inj hb
  have hlength : 0 < (String.utf8EncodeChar c).length := by simp [hc]
  have hbyte : (String.utf8EncodeChar c)[0] = b' := by simp [hc]
  exact hbyte ▸ UInt8.isUTF8FirstByte_getElem_utf8EncodeChar.mpr rfl

/-- **A cut in front of a character is a cut of the name.** -/
theorem exists_append_of_bytes_eq {cs : List Char} {p q : List UInt8} (h : bytes cs = p ++ q)
    (hq : StartsCharacter q) : ∃ xs ys, xs ++ ys = cs ∧ bytes xs = p ∧ bytes ys = q := by
  induction cs generalizing p with
  | nil =>
    obtain ⟨rfl, rfl⟩ := List.append_eq_nil_iff.mp h.symm
    exact ⟨[], [], rfl, rfl, rfl⟩
  | cons c cs ih =>
    rw [bytes_cons, List.append_eq_append_iff] at h
    rcases h with ⟨p', rfl, hp'⟩ | ⟨q', hc, rfl⟩
    · -- The cut lies behind the first character.
      obtain ⟨xs, ys, rfl, rfl, rfl⟩ := ih hp'
      exact ⟨c :: xs, ys, rfl, rfl, rfl⟩
    · cases q' with
      | nil =>
        rw [List.append_nil] at hc
        exact ⟨[c], cs, rfl, by rw [bytes_cons, bytes_nil, hc, List.append_nil], rfl⟩
      | cons b bs =>
        -- The cut lies in the first character, so it lies in front of it.
        have hstarts : StartsCharacter (b :: bs) := fun b' hb' => hq b' hb'
        rcases startsCharacter_of_utf8EncodeChar hc hstarts with rfl | hnil
        · exact ⟨[], c :: cs, rfl, rfl, by rw [bytes_cons, hc, List.nil_append]⟩
        · cases hnil

/-- **A character is told by its bytes.** -/
theorem exists_cons_of_bytes_eq {c : Char} {cs : List Char} {bs : List UInt8}
    (h : bytes cs = String.utf8EncodeChar c ++ bs) : ∃ ds, cs = c :: ds ∧ bytes ds = bs := by
  have hencode : [c].utf8Encode ++ bs.toByteArray = cs.utf8Encode := by
    have hbytes := congrArg List.toByteArray h
    simpa [bytes, List.utf8Encode] using hbytes.symm
  obtain ⟨ds, rfl⟩ := List.isPrefix_of_utf8Encode_append_eq_utf8Encode _ hencode
  refine ⟨ds, rfl, ?_⟩
  rw [List.singleton_append, bytes_cons] at h
  exact List.append_cancel_left h

end UpdatePlanner.Shape
