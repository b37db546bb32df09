import UpdatePlanner.Requirement.Basic
import UpdatePlanner.Version.Boundary
import UpdatePlanner.Failure

/-!
# Reading requirements

Constraints are separated by commas.  A constraint is an operator, which may be left out and
then means `=`, and a version without white space in it; white space may stand around both.  A
blank text is the requirement `>= 0`.

## Main definitions

* `ConstraintFault` — why a constraint cannot be read;
* `Comparator.read?` — the comparator that a constraint denotes;
* `Requirement.read?` — the requirement that a text denotes.
-/

namespace UpdatePlanner

open Text

/-- Why a constraint cannot be read. -/
inductive ConstraintFault where
  /-- Nothing stands between two commas. -/
  | empty
  /-- White space stands inside the version, or the version is missing. -/
  | unreadable (constraint : String)
  /-- The version begins with a character of an operator. -/
  | unknownOperator (constraint : String)
  deriving DecidableEq, Repr

def ConstraintFault.message : ConstraintFault → String
  | empty => "empty constraint"
  | unreadable constraint => "cannot parse constraint '" ++ constraint ++ "'"
  | unknownOperator constraint => "unknown operator in '" ++ constraint ++ "'"

namespace Comparator

/-- The version behind an operator: a word without white space in it, after white space. -/
def word? (cs : List Char) : Option (List Char) :=
  let word := trimLeft cs
  if word.isEmpty || word.any isBlank then none else some word

/-- A constraint cut into its operator and its version.  The first operator that leaves a version
is taken, and no operator at all only if none does: so `>=` alone is `>` before the version
`=`. -/
def cut? (constraint : List Char) : Option (Operator × List Char) :=
  let withOperator (op : Operator) : Option (Operator × List Char) := do
    let rest ← op.symbol.toList.isPrefixOf? constraint
    return (op, ← word? rest)
  Operator.all.findSome? withOperator <|> (word? constraint).map fun word => (.equal, word)

/-- The comparator that a constraint denotes. -/
def read? (constraint : List Char) : Except ConstraintFault Comparator :=
  let trimmed := trim constraint
  if trimmed.isEmpty then
    .error .empty
  else
    match cut? trimmed with
    | none => .error (.unreadable (String.ofList trimmed))
    | some (op, version) =>
      -- Such a version is what is left of an operator that does not exist, as in `=> 1`.
      if version.head?.any Version.isOperatorChar then
        .error (.unknownOperator (String.ofList trimmed))
      else
        .ok ⟨op, Version.read (String.ofList version)⟩

end Comparator

namespace Requirement

/-- The requirement that a text denotes; a blank text denotes `>= 0`.  The first faulty
constraint is reported. -/
def read? (text : String) : Except PolicyFailure Requirement :=
  if (trim text.toList).isEmpty then
    .ok any
  else
    match (text.toList.splitOn ',').mapM Comparator.read? with
    | .ok comparators => .ok ⟨comparators⟩
    | .error fault => .error (.invalidRequirement text fault.message)

end Requirement

end UpdatePlanner
