import UpdatePlanner.Yaml.Scalar

/-!
# Tags

A tag names the type of a node.  It is written with the characters of an address; any other byte
is written as a percent sign and two hexadecimal digits.  Such bytes come in groups, each of the
length that its first byte announces, but they need not be the text of any character.  So a tag
is made of bytes.  A zero byte ends it.

## Main definitions

* `Tag` — the tags;
* `Tag.core`, `Tag.localName?` — the tags of the common types, and those of the document's own;
* `readTagBytes` — the bytes that are written at a position, and the position behind them.
-/

namespace UpdatePlanner.Yaml

/-- The name of the type of a node. -/
structure Tag where
  bytes : List UInt8
  deriving DecidableEq, Repr

namespace Tag

/-- What some bytes contribute to a tag: those in front of the first zero byte. -/
def untilZero (bytes : List UInt8) : List UInt8 :=
  bytes.takeWhile (· ≠ 0)

/-- The tag of a common type. -/
def core (name : String) : Tag :=
  ⟨("tag:yaml.org,2002:" ++ name).toUTF8.toList⟩

/-- The name that a tag of the document's own gives: what stands behind its exclamation mark, if
that is a text. -/
def localName? (t : Tag) : Option String :=
  match t.bytes with
  | b :: bytes => if b = '!'.toUInt8 then String.fromUTF8? ⟨bytes.toArray⟩ else none
  | [] => none

/-- The byte that a percent sign and two hexadecimal digits stand for. -/
def escapedByte? : List Char → Option UInt8
  | '%' :: a :: b :: _ => do return (16 * (← hexDigit? a) + (← hexDigit? b)).toUInt8
  | _ => none

/-- The length of a group of bytes that begins with the given one. -/
def groupLength? (b : UInt8) : Option Nat :=
  if b < 0x80 then some 1
  else if 0xc0 ≤ b && b < 0xe0 then some 2
  else if 0xe0 ≤ b && b < 0xf0 then some 3
  else if 0xf0 ≤ b && b < 0xf8 then some 4
  else none

/-- A number of escaped bytes inside of a group. -/
def laterBytes? : Nat → List Char → Option (List UInt8)
  | 0, _ => some []
  | n + 1, cs => do
    let b ← escapedByte? cs
    if 0x80 ≤ b && b < 0xc0 then return b :: (← laterBytes? n (cs.drop 3)) else none

/-- The group of escaped bytes that begins here. -/
def escapedGroup? (cs : List Char) : Option (List UInt8) := do
  let b ← escapedByte? cs
  return b :: (← laterBytes? ((← groupLength? b) - 1) (cs.drop 3))

/-- A character that stands for itself in a tag; some do so only between angle brackets and in
what a handle stands for. -/
def isPlainChar (bracketed : Bool) (c : Char) : Bool :=
  isNameChar c || ";/?:@&=+$.!~*'()".toList.contains c ||
    (bracketed && (c = ',' || c = '[' || c = ']'))

end Tag

/-- Reads the bytes of a tag, or of a part of one. -/
def readTagBytes (bracketed : Bool) : Nat → Cursor → Except Fault (List UInt8 × Cursor)
  | 0, c => .ok ([], c)
  | fuel + 1, c =>
    match c.rest with
    | [] => .ok ([], c)
    | d :: _ =>
      if d = '%' then do
        let some group := Tag.escapedGroup? c.rest | throw .badTag
        let (bytes, c) ← readTagBytes bracketed fuel (c.advance (3 * group.length))
        return (group ++ bytes, c)
      else if Tag.isPlainChar bracketed d then do
        let (bytes, c) ← readTagBytes bracketed fuel (c.advance 1)
        return (d.toUInt8 :: bytes, c)
      else
        .ok ([], c)

end UpdatePlanner.Yaml
