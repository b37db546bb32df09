import Mathlib.Data.List.Basic
import UpdatePlanner.Proofs.Pattern.Encoding
import UpdatePlanner.Proofs.Pattern.Nesting

/-!
# Patterns with stars

A pattern of ordinary characters and single stars covers the names that its pieces make with
anything filled in for the stars. The search for such a name marks all places that a gap can lead
to, so it tries every filling at once, and repeated or overlapping pieces are no matter.

A gap covers any bytes, but a filling is a text. The two agree as no two stars stand side by side:
behind a star the name ends or a character begins, so a gap never ends inside a character.

## Main definitions

* `IsStarPattern cs`: a pattern of ordinary characters and single stars
* `Woven pieces fillings name`: a name is made of pieces, with fillings between them

## Main results

* `Shape.covers_sequence_cons_iff`: what a sequence of shapes covers
* `Pattern.read?_of_isStarPattern`: the tokens of the pattern are its characters, one by one
* `covers_bytes_iff_woven`: the shape of the pattern covers the names that its pieces make
* `NamePattern.accepts_iff_woven`: so does the pattern
-/

namespace UpdatePlanner

open Pattern

/-! ## Sequences of shapes -/

namespace Shape

variable {bs : List UInt8}

theorem covers_empty_iff : Covers .empty bs ↔ bs = [] := by
  constructor
  · rintro ⟨⟩
    rfl
  · rintro rfl
    exact .empty

theorem covers_byte_only_iff {b : UInt8} : Covers (.byte (.only b)) bs ↔ bs = [b] := by
  constructor
  · intro h
    cases h with
    | byte h => rw [(ByteClass.contains_only b _).mp h]
  · rintro rfl
    exact .byte ((ByteClass.contains_only b b).mpr rfl)

theorem covers_seq_iff {s t : Shape} :
    Covers (.seq s t) bs ↔ ∃ p q, p ++ q = bs ∧ s.Covers p ∧ t.Covers q := by
  constructor
  · intro h
    cases h with
    | seq hs ht => exact ⟨_, _, rfl, hs, ht⟩
  · rintro ⟨p, q, rfl, hs, ht⟩
    exact .seq hs ht

/-- **What a sequence of shapes covers**: what the first one covers, and then what the others do. -/
theorem covers_sequence_cons_iff {s : Shape} {ss : List Shape} :
    (sequence (s :: ss)).Covers bs ↔ ∃ p q, p ++ q = bs ∧ s.Covers p ∧ (sequence ss).Covers q := by
  rw [sequence]
  induction ss generalizing s bs with
  | nil =>
    constructor
    · intro h
      exact ⟨bs, [], List.append_nil bs, h, .empty⟩
    · rintro ⟨p, q, rfl, hs, hq⟩
      rw [covers_empty_iff.mp hq, List.append_nil]
      exact hs
  | cons t ts ih =>
    rw [List.foldl_cons, ih, sequence]
    constructor
    · rintro ⟨p, q, rfl, hp, hq⟩
      obtain ⟨p, p', rfl, hs, ht⟩ := covers_seq_iff.mp hp
      exact ⟨p, p' ++ q, (List.append_assoc ..).symm, hs, ih.mpr ⟨p', q, rfl, ht, hq⟩⟩
    · rintro ⟨p, q, rfl, hs, hq⟩
      obtain ⟨p', q', rfl, ht, hq'⟩ := ih.mp hq
      exact ⟨p ++ p', q', List.append_assoc .., covers_seq_iff.mpr ⟨p, p', rfl, hs, ht⟩, hq'⟩

/-- A character covers its bytes and nothing else. -/
theorem covers_character_iff {c : Char} :
    (Token.character c).Covers bs ↔ bs = String.utf8EncodeChar c := by
  rw [Token.character]
  generalize String.utf8EncodeChar c = cs
  induction cs generalizing bs with
  | nil => exact covers_empty_iff
  | cons b cs ih =>
    rw [List.map_cons, covers_sequence_cons_iff]
    constructor
    · rintro ⟨p, q, rfl, hp, hq⟩
      rw [covers_byte_only_iff.mp hp, ih.mp hq, List.singleton_append]
    · rintro rfl
      exact ⟨[b], cs, rfl, covers_byte_only_iff.mpr rfl, ih.mpr rfl⟩

end Shape

/-! ## Reading the pattern -/

/-- The characters with a meaning of their own in a pattern, apart from the star. -/
def isSpecial (c : Char) : Bool :=
  c = '?' || c = '[' || c = ']' || c = '\x7b' || c = '\x7d' || c = '\\'

/-- A pattern of ordinary characters and single stars. -/
structure IsStarPattern (cs : List Char) : Prop where
  ordinary : ∀ c ∈ cs, isSpecial c = false
  apart : ¬ ['*', '*'] <:+: cs

theorem isStarPattern_cons_iff {c : Char} {cs : List Char} :
    IsStarPattern (c :: cs) ↔
      isSpecial c = false ∧ (c = '*' → cs.head? ≠ some '*') ∧ IsStarPattern cs := by
  have hprefix : ['*', '*'] <+: c :: cs ↔ c = '*' ∧ cs.head? = some '*' := by
    cases cs <;> simp [List.cons_prefix_cons, eq_comm]
  constructor
  · rintro ⟨hordinary, hapart⟩
    rw [List.infix_cons_iff, not_or, hprefix, not_and] at hapart
    obtain ⟨hc, hcs⟩ := List.forall_mem_cons.mp hordinary
    exact ⟨hc, hapart.1, hcs, hapart.2⟩
  · rintro ⟨hc, hstar, hcs, hapart⟩
    refine ⟨List.forall_mem_cons.mpr ⟨hc, hcs⟩, ?_⟩
    rw [List.infix_cons_iff, not_or, hprefix, not_and]
    exact ⟨hstar, hapart⟩

namespace Pattern

/-- The token of a character in such a pattern. -/
def starToken (c : Char) : Token :=
  if c = '*' then .gap else .literal c

/-- The shape of a character in such a pattern. -/
def starShape (c : Char) : Shape :=
  if c = '*' then .gap else Token.character c

theorem shape?_starToken (c : Char) : (starToken c).shape? = some (starShape c) := by
  unfold starToken starShape
  split <;> rfl

/-- A step of the reader: outside a choice, the first character is a token by itself. -/
theorem readTokens_cons_of_isStarPattern {c : Char} {cs : List Char} (h : IsStarPattern (c :: cs))
    (before : Option Char) {d : Draft} (hd : d.inChoice = false) :
    readTokens before d (c :: cs) = readTokens (some c) (d.push (starToken c)) cs := by
  obtain ⟨hc, hstar, -⟩ := isStarPattern_cons_iff.mp h
  simp only [isSpecial, Bool.or_eq_false_iff, decide_eq_false_iff_not] at hc
  obtain ⟨⟨⟨⟨⟨hany, hopening⟩, -⟩, hbrace⟩, hclosing⟩, hescape⟩ := hc
  rw [readTokens, if_neg hany, if_neg hbrace, hd, Bool.and_false, if_neg Bool.false_ne_true,
    starToken, apply_ite d.push]
  case x_1 =>
    -- Two stars side by side would be read together.
    rintro cs' rfl rfl
    exact hstar rfl rfl
  case x_2 => exact fun he _ => hescape he
  case x_3 => exact fun _ _ he _ => hescape he
  case x_4 => exact hopening
  case x_5 => exact hclosing

/-- A whole run of the reader: each character is a token by itself. -/
theorem readTokens_of_isStarPattern {cs : List Char} (h : IsStarPattern cs) (before : Option Char)
    {d : Draft} (hd : d.inChoice = false) :
    readTokens before d cs =
      .ok { d with branch := (cs.map starToken).reverse ++ d.branch } := by
  induction cs generalizing before d with
  | nil => simp [readTokens]
  | cons c cs ih =>
    obtain ⟨-, -, hcs⟩ := isStarPattern_cons_iff.mp h
    have hpush : (d.push (starToken c)).inChoice = false := hd
    rw [readTokens_cons_of_isStarPattern h before hd, ih hcs (some c) hpush]
    simp [Draft.push]

/-- **The tokens of the pattern are its characters, one by one.** -/
theorem read?_of_isStarPattern {text : String} (h : IsStarPattern text.toList) :
    read? text = .ok (text.toList.map starToken) := by
  have hstart : Draft.start.inChoice = false := rfl
  rw [read?, readTokens_of_isStarPattern h none hstart]
  simp [Draft.start, Draft.inChoice]

theorem depth_map_starToken_le (cs : List Char) : depth (cs.map starToken) ≤ 1 := by
  rw [depth_le_iff, List.forall_mem_map]
  intro c _
  unfold starToken
  split
  · exact Nat.le_refl 1
  · exact Nat.zero_le 1

/-- A pattern has the shapes of its tokens, one after another, unless it is a doubled star. -/
theorem shape_eq_sequence {tokens : List Token} (h : tokens ≠ [.leading]) :
    shape tokens = Shape.sequence (tokens.filterMap Token.shape?) := by
  rw [shape, if_neg h, branch?]
  cases tokens.filterMap Token.shape? <;> rfl

theorem shape_map_starToken (cs : List Char) :
    shape (cs.map starToken) = Shape.sequence (cs.map starShape) := by
  have hleading : cs.map starToken ≠ [.leading] := by
    intro h
    obtain ⟨c, -, hc⟩ := List.mem_map.mp (h ▸ List.mem_singleton_self Token.leading)
    unfold starToken at hc
    split at hc <;> cases hc
  have hshapes : cs.filterMap (Token.shape? ∘ starToken) = cs.filterMap (some ∘ starShape) :=
    List.filterMap_congr fun c _ => shape?_starToken c
  rw [shape_eq_sequence hleading, List.filterMap_map, hshapes, List.filterMap_eq_map]

end Pattern

/-! ## Names that the pattern covers -/

/-- A name is made of pieces in their order, with fillings between them. -/
inductive Woven : List (List Char) → List (List Char) → List Char → Prop
  | last (piece : List Char) : Woven [piece] [] piece
  | cons (piece filling : List Char) {pieces fillings : List (List Char)} {name : List Char}
      (h : Woven pieces fillings name) :
      Woven (piece :: pieces) (filling :: fillings) (piece ++ (filling ++ name))

section Woven

variable {pieces fillings : List (List Char)} {name : List Char}

/-- A name without characters in front of its first filling. -/
theorem woven_nil_cons_iff (hne : pieces ≠ []) :
    Woven ([] :: pieces) fillings name ↔
      ∃ filling fillings' rest, fillings = filling :: fillings' ∧ name = filling ++ rest ∧
        Woven pieces fillings' rest := by
  constructor
  · intro h
    cases h with
    | last => exact absurd rfl hne
    | cons _ filling h => exact ⟨filling, _, _, rfl, rfl, h⟩
  · rintro ⟨filling, fillings', rest, rfl, rfl, h⟩
    exact .cons [] filling h

/-- A name that begins with the first character of its first piece. -/
theorem woven_modifyHead_cons_iff (hne : pieces ≠ []) {c : Char} :
    Woven (pieces.modifyHead (c :: ·)) fillings name ↔
      ∃ rest, name = c :: rest ∧ Woven pieces fillings rest := by
  obtain ⟨piece, pieces, rfl⟩ := List.exists_cons_of_ne_nil hne
  rw [List.modifyHead_cons]
  constructor
  · intro h
    cases h with
    | last => exact ⟨piece, rfl, .last piece⟩
    | cons _ filling h => exact ⟨_, rfl, .cons piece filling h⟩
  · rintro ⟨rest, rfl, h⟩
    cases h with
    | last => exact .last (c :: piece)
    | cons _ filling h => exact .cons (c :: piece) filling h

end Woven

/-- What the pattern covers ends, or begins with a character, unless the pattern begins with a
star. -/
theorem startsCharacter_of_covers {cs : List Char} {bs : List UInt8} (hstar : cs.head? ≠ some '*')
    (h : (Shape.sequence (cs.map starShape)).Covers bs) : Shape.StartsCharacter bs := by
  cases cs with
  | nil =>
    rw [Shape.covers_empty_iff.mp h]
    simp [Shape.StartsCharacter]
  | cons c cs =>
    rw [List.map_cons, Shape.covers_sequence_cons_iff] at h
    obtain ⟨p, q, rfl, hp, -⟩ := h
    have hc : c ≠ '*' := fun he => hstar (congrArg some he)
    rw [starShape, if_neg hc, Shape.covers_character_iff] at hp
    rw [hp]
    exact Shape.startsCharacter_utf8EncodeChar_append c q

/-- **The shape of the pattern covers the names that its pieces make** with any fillings. -/
theorem covers_bytes_iff_woven {cs : List Char} (h : IsStarPattern cs) {name : List Char} :
    (Shape.sequence (cs.map starShape)).Covers (Shape.bytes name) ↔
      ∃ fillings, Woven (cs.splitOn '*') fillings name := by
  induction cs generalizing name with
  | nil =>
    rw [List.splitOn_nil]
    constructor
    · intro hcovers
      obtain rfl := Shape.bytes_eq_nil_iff.mp (Shape.covers_empty_iff.mp hcovers)
      exact ⟨[], .last []⟩
    · rintro ⟨fillings, hwoven⟩
      cases hwoven with
      | last => exact .empty
      | cons _ _ h => cases h
  | cons c cs ih =>
    obtain ⟨-, hstar, hcs⟩ := isStarPattern_cons_iff.mp h
    rw [List.map_cons, Shape.covers_sequence_cons_iff, List.splitOn_cons_eq_if_modifyHead]
    by_cases hc : c = '*'
    · subst hc
      simp only [starShape, if_true, beq_self_eq_true,
        woven_nil_cons_iff (List.splitOn_ne_nil '*' cs)]
      constructor
      · rintro ⟨p, q, hname, -, hq⟩
        -- The gap ends where a character begins, so it is filled with a text.
        have hq' := startsCharacter_of_covers (hstar rfl) hq
        obtain ⟨filling, rest, rfl, -, rfl⟩ := Shape.exists_append_of_bytes_eq hname.symm hq'
        obtain ⟨fillings, hwoven⟩ := (ih hcs).mp hq
        exact ⟨filling :: fillings, filling, fillings, rest, rfl, rfl, hwoven⟩
      · rintro ⟨_, filling, fillings, rest, -, rfl, hwoven⟩
        exact ⟨_, _, (Shape.bytes_append ..).symm, .gap _, (ih hcs).mpr ⟨fillings, hwoven⟩⟩
    · have hbeq : (c == '*') = false := beq_eq_false_iff_ne.mpr hc
      simp only [starShape, if_neg hc, hbeq, Bool.false_eq_true, if_false,
        woven_modifyHead_cons_iff (List.splitOn_ne_nil '*' cs), Shape.covers_character_iff]
      constructor
      · rintro ⟨p, q, hname, rfl, hq⟩
        obtain ⟨rest, rfl, rfl⟩ := Shape.exists_cons_of_bytes_eq hname.symm
        obtain ⟨fillings, hwoven⟩ := (ih hcs).mp hq
        exact ⟨fillings, rest, rfl, hwoven⟩
      · rintro ⟨fillings, rest, rfl, hwoven⟩
        exact ⟨_, _, rfl, rfl, (ih hcs).mpr ⟨fillings, hwoven⟩⟩

namespace NamePattern

theorem read?_of_nesting {text : String} {tokens : List Token} (h : Pattern.read? text = .ok tokens)
    (hdepth : depth tokens < nestingLimit) : read? text = .ok ⟨text, Pattern.shape tokens⟩ := by
  simp only [read?, h]
  exact if_pos hdepth

/-- **A pattern of ordinary characters and single stars can always be read, and accepts exactly the
names that its pieces make**, in their order, with any texts between them. The pieces are compared
character by character; a text between them may hold any characters. -/
theorem accepts_iff_woven {text : String} (h : IsStarPattern text.toList) :
    ∃ p, read? text = .ok p ∧ ∀ name : String, p.accepts name = true ↔
      ∃ fillings, Woven (text.toList.splitOn '*') fillings name.toList := by
  have hdepth : depth (text.toList.map starToken) < nestingLimit :=
    Nat.lt_of_le_of_lt (depth_map_starToken_le _) (by decide)
  refine ⟨_, read?_of_nesting (read?_of_isStarPattern h) hdepth, ?_⟩
  intro name
  rw [accepts, Shape.accepts_iff, shape_map_starToken]
  exact covers_bytes_iff_woven h

/-- A pattern with a piece that is repeated. It takes the last occurrences in a name where the first
ones do not do, and fills its stars with slashes and line breaks. -/
theorem accepts_iff_woven_repeatedPiece :
    IsStarPattern "@a/*ab*ab".toList ∧
      ∃ p, read? "@a/*ab*ab" = .ok p ∧ p.accepts "@a/ab:/abx\nab" = true ∧
        p.accepts "@a/xab" = false ∧ p.accepts "@a/abAB" = false := by
  have hcharacters : "@a/*ab*ab".toList = ['@', 'a', '/', '*', 'a', 'b', '*', 'a', 'b'] := rfl
  have hordinary : ("@a/*ab*ab".toList.all fun c => !isSpecial c) = true := by decide
  have h : IsStarPattern "@a/*ab*ab".toList :=
    ⟨fun c hc => by simpa using List.all_eq_true.mp hordinary c hc, by rw [hcharacters]; decide⟩
  obtain ⟨p, hread, haccepts⟩ := accepts_iff_woven h
  have hpieces : "@a/*ab*ab".toList.splitOn '*' = [['@', 'a', '/'], ['a', 'b'], ['a', 'b']] := by
    rw [hcharacters]
    rfl
  have hname : "@a/ab:/abx\nab".toList =
      ['@', 'a', '/'] ++ (['a', 'b', ':', '/'] ++ (['a', 'b'] ++ (['x', '\n'] ++ ['a', 'b']))) := rfl
  have hrefused (name : String)
      (heval : ((read? "@a/*ab*ab").toOption.any fun p => p.accepts name) = false) :
      p.accepts name = false := by
    rwa [hread] at heval
  refine ⟨h, p, hread, (haccepts _).mpr ⟨[['a', 'b', ':', '/'], ['x', '\n']], ?_⟩, ?_, ?_⟩
  · rw [hpieces, hname]
    exact .cons _ _ (.cons _ _ (.last _))
  · exact hrefused _ (by with_unfolding_all decide)
  · exact hrefused _ (by with_unfolding_all decide)

end NamePattern

end UpdatePlanner
