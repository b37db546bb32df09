import UpdatePlanner.Text.Number
import UpdatePlanner.Yaml.Cursor

/-!
# What plain scalars denote

A plain scalar may denote nothing, a truth value or a number; otherwise it denotes its own text.
The same rule tells the writer which texts must not be written plain.

Whole numbers are decimal, or have the mark of another base, and may have a sign; there are 128
bits for them.  Decimal digits behind a leading zero are a text.  Numbers with a fraction or an
exponent have to be finite as double precision numbers.

## Main definitions

* `ScalarKind` — what a plain scalar denotes;
* `ScalarKind.ofText` — by its text.
-/

namespace UpdatePlanner.Yaml

open Text

/-- What a plain scalar denotes. -/
inductive ScalarKind where
  | null
  | bool (b : Bool)
  | number
  | text
  deriving DecidableEq, Repr

namespace ScalarKind

def isNullWord (s : String) : Bool :=
  ["null", "Null", "NULL", "~"].contains s

/-- The truth value that a word denotes. -/
def bool? (s : String) : Option Bool :=
  if ["true", "True", "TRUE"].contains s then some true
  else if ["false", "False", "FALSE"].contains s then some false
  else none

/-- A sign and what stands behind it. -/
def splitSign : List Char → Option Char × List Char
  | '+' :: cs => (some '+', cs)
  | '-' :: cs => (some '-', cs)
  | cs => (none, cs)

/-- Decimal digits behind a leading zero. -/
def hasLeadingZero (cs : List Char) : Bool :=
  match (splitSign cs).2 with
  | '0' :: d :: ds => (d :: ds).all Char.isDigit
  | _ => false

/-- The value of a digit of a base up to sixteen. -/
def digitOf? (base : Nat) (c : Char) : Option Nat :=
  let value :=
    if c.isDigit then c.toNat - 48
    else if 'a' ≤ c && c ≤ 'f' then c.toNat - 87
    else if 'A' ≤ c && c ≤ 'F' then c.toNat - 55
    else base
  if value < base then some value else none

/-- The number that digits of a base denote. -/
def numeral? (base : Nat) (cs : List Char) : Option Nat := do
  let digits ← cs.mapM (digitOf? base)
  if digits.isEmpty then none else return digits.foldl (fun n d => base * n + d) 0

/-- The base that a mark in front of digits stands for, and the digits. -/
def splitBase : List Char → Nat × List Char
  | '0' :: 'x' :: cs => (16, cs)
  | '0' :: 'o' :: cs => (8, cs)
  | '0' :: 'b' :: cs => (2, cs)
  | cs => (10, cs)

/-- The whole number that a text denotes: whether there is a minus sign, and the number behind the
sign. -/
def whole? (cs : List Char) : Option (Bool × Nat) := do
  let (sign, digits) := splitSign cs
  let (base, digits) := splitBase digits
  if hasLeadingZero cs then none else return (sign = some '-', ← numeral? base digits)

/-- Whether a text denotes a whole number that the given number of bits can hold, with a sign
only where it is negative. -/
def isWholeIn (bits : Nat) (cs : List Char) : Bool :=
  (whole? cs).any fun (negative, n) =>
    decide (n ≤ if negative then Nat.pow 2 (bits - 1) else Nat.pow 2 bits - 1)

/-- Whether a text denotes a whole number. -/
def isWhole (cs : List Char) : Bool :=
  isWholeIn 128 cs

/-- Digits, and what stands behind them. -/
def splitDigits (cs : List Char) : List Char × List Char :=
  (cs.takeWhile Char.isDigit, cs.dropWhile Char.isDigit)

/-- The exponent at the end of a number, if it is well formed. -/
def exponent? : List Char → Option Int
  | [] => some 0
  | c :: cs =>
    if c = 'e' || c = 'E' then
      let (sign, digits) := splitSign cs
      if isDigits digits then
        let n : Int := digitsValue digits
        some (if sign = some '-' then -n else n)
      else none
    else none

/-- Whether `m * 10 ^ e` is finite as a double precision number.  From half a unit beyond the
largest such number on it is not. -/
def isFinite (m : Nat) (e : Int) : Bool :=
  let limit := Nat.pow 2 1024 - Nat.pow 2 970
  -- Exponents far off are settled first, as their powers would be too large to compute.
  if m = 0 then true
  else if e ≥ 400 then false
  else if e ≥ 0 then decide (m * Nat.pow 10 e.toNat < limit)
  else if (-e).toNat > 2 * (Nat.toDigits 10 m).length + 400 then true
  else decide (m < limit * Nat.pow 10 (-e).toNat)

/-- Whether a text denotes a number with a fraction or an exponent, or one of the words for what
is no number. -/
def isFractional (cs : List Char) : Bool :=
  let unsigned := match cs with
    | '+' :: cs => cs
    | cs => cs
  let s := String.ofList cs
  let u := String.ofList unsigned
  if [".inf", ".Inf", ".INF"].contains u || ["-.inf", "-.Inf", "-.INF"].contains s ||
      [".nan", ".NaN", ".NAN"].contains s then
    true
  else
    -- A minus sign may not stand behind a plus sign.
    let (whole, rest) := splitDigits (match unsigned with
      | '-' :: ds => if unsigned.length = cs.length then ds else unsigned
      | ds => ds)
    let (fraction, rest) := match rest with
      | '.' :: ds => splitDigits ds
      | ds => ([], ds)
    if whole.isEmpty && fraction.isEmpty then false
    else
      match exponent? rest with
      | some e => isFinite (digitsValue (whole ++ fraction)) (e - fraction.length)
      | none => false

/-- What a plain scalar denotes by its text. -/
def ofText (s : String) : ScalarKind :=
  if s.isEmpty || isNullWord s then .null
  else
    match bool? s with
    | some b => .bool b
    | none =>
      let cs := s.toList
      if isWhole cs then .number
      else if !hasLeadingZero cs && isFractional cs then .number
      else .text

end ScalarKind

end UpdatePlanner.Yaml
