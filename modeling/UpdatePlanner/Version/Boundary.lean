import UpdatePlanner.Version.Basic

/-!
# Where the next version line begins

Ranges of versions are bounded by the start of the next version line at a given depth: depth 0
is the major line, 1 the minor one, 2 the patch.  A boundary is computed on the *parts* of a
version, the texts between its dots, so that it keeps the shape of the version it comes from.
White space and commas end a part too: they delimit the constraints of a requirement, and a
boundary is to be put into one.

## Main definitions

* `Version.parts` — the parts of a version text;
* `Version.Side` — the two ends of a range;
* `Version.nextBoundary` — the boundary at a depth, if the version is deep enough.

## Main results

* `Version.nextBoundary_eq_none_iff` — when there is no boundary.
-/

namespace UpdatePlanner.Version

open Text

/-- The characters that operators of a requirement are made of. -/
def isOperatorChar (c : Char) : Bool :=
  c == '<' || c == '>' || c == '=' || c == '!' || c == '~'

/-- The characters between two parts of a version. -/
def isPartSeparator (c : Char) : Bool :=
  c == '.' || c == ',' || isBlank c

/-- The parts of a version text, none of them empty.  A leading operator, the mark before the
first digit and the update number belong to no part. -/
def partsOf (cs : List Char) : List (List Char) :=
  let bare := (trim cs).dropWhile fun c => isOperatorChar c || isBlank c
  ((splitUpdate (dropMark bare)).1.splitOnP isPartSeparator).filter fun p => !p.isEmpty

/-- The parts of a version text as texts. -/
def parts (version : String) : List String :=
  (partsOf version.toList).map String.ofList

/-- The end of a range that a boundary is computed for. -/
inductive Side where
  | lower
  | upper
  deriving DecidableEq, Repr

/-- The lowest word: `X.a` is the lowest version of the line `X`. -/
def lowestWord : List Char := ['a']

/-- A number that stands above the continuations of a part that cannot be raised. -/
def highContinuation : List Char := ['9', '9', '9', '9', '9', '9']

/-- The number after a part, if the part is a number and the next one can be held. -/
def raisePart (part : List Char) : Option (List Char) := do
  let n ← number? part
  if n < maxNumber then some (digits (n + 1)) else none

/-- What stands at and behind the given depth of a boundary.  An absent part counts as zero.  A
part that is no number is kept, and continued so that the boundary still lies above the
version. -/
def boundaryTail (part : Option (List Char)) (depth : Nat) (side : Side) : List (List Char) :=
  match part with
  | none => [['1']]
  | some part =>
    match raisePart part with
    | some next => [next]
    | none =>
      match side with
      | .upper => [part, highContinuation]
      | .lower => if depth > 0 then [part, ['1']] else [part]

/-- The parts of the boundary of the next version line at a depth. -/
def boundaryParts (parts : List (List Char)) (depth : Nat) (side : Side) :
    Option (List (List Char)) :=
  if parts.isEmpty || decide (depth > parts.length) then
    none
  else
    let line := parts.take depth ++ boundaryTail parts[depth]? depth side
    some (match side with
      | .lower => line ++ [lowestWord]
      | .upper => line)

/-- The boundary of the next version line at a depth.  There is none if the version has fewer
parts than that. -/
def nextBoundary (version : String) (depth : Nat) (side : Side) : Option String :=
  (boundaryParts (partsOf version.toList) depth side).map fun parts =>
    String.ofList (['.'].intercalate parts)

theorem nextBoundary_eq_none_iff (version : String) (depth : Nat) (side : Side) :
    nextBoundary version depth side = none ↔
      partsOf version.toList = [] ∨ (partsOf version.toList).length < depth := by
  simp only [nextBoundary, boundaryParts, Option.map_eq_none_iff]
  split <;> simp_all

end UpdatePlanner.Version
