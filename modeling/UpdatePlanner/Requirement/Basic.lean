import UpdatePlanner.Version.Order

/-!
# Version requirements

A requirement is a conjunction of comparators, each an operator and a version.  A requirement
without a comparator that bounds it from below starts at version zero.

## Main definitions

* `Operator`, `Comparator`, `Requirement` — what requirements are made of;
* `Comparator.admits`, `Requirement.admits` — the versions that satisfy them;
* `Requirement.any` — the requirement `>= 0`;
* `Requirement.render` — a requirement as text.
-/

namespace UpdatePlanner

/-- The operators of a comparator. -/
inductive Operator where
  | equal
  | notEqual
  | greater
  | less
  | atLeast
  | atMost
  /-- `~>`: at least the version and below the end of its line. -/
  | pessimistic
  deriving DecidableEq, Repr

namespace Operator

def symbol : Operator → String
  | equal => "="
  | notEqual => "!="
  | greater => ">"
  | less => "<"
  | atLeast => ">="
  | atMost => "<="
  | pessimistic => "~>"

/-- Every operator; of two where one begins with the other, the longer stands first. -/
def all : List Operator :=
  [pessimistic, atLeast, atMost, notEqual, equal, greater, less]

theorem mem_all (op : Operator) : op ∈ all := by cases op <;> decide

/-- Whether the operator excludes everything below some version. -/
def boundsBelow : Operator → Bool
  | equal | greater | atLeast | pessimistic => true
  | notEqual | less | atMost => false

/-- The versions `w` that stand in the relation of the operator to `v`. -/
def relates (op : Operator) (w v : Version) : Bool :=
  match op with
  | equal => (compare w v).isEq
  | notEqual => !(compare w v).isEq
  | greater => (compare w v).isGT
  | less => (compare w v).isLT
  | atLeast => (compare w v).isGE
  | atMost => (compare w v).isLE
  | pessimistic => (compare w v).isGE && (compare w v.bump).isLT

end Operator

/-- One constraint of a requirement. -/
structure Comparator where
  op : Operator
  version : Version
  deriving DecidableEq, Repr

namespace Comparator

/-- Whether a version satisfies the comparator. -/
def admits (c : Comparator) (v : Version) : Bool :=
  c.op.relates v c.version

def render (c : Comparator) : String :=
  c.op.symbol ++ " " ++ c.version.text

end Comparator

/-- A conjunction of comparators. -/
structure Requirement where
  comparators : List Comparator
  deriving DecidableEq, Repr

namespace Requirement

def zero : Version := Version.read "0"

def any : Requirement := ⟨[⟨.atLeast, zero⟩]⟩

/-- Whether some comparator bounds the requirement from below. -/
def boundedBelow (r : Requirement) : Bool :=
  r.comparators.any fun c => c.op.boundsBelow

/-- Whether a version satisfies the requirement. -/
def admits (r : Requirement) (v : Version) : Bool :=
  (r.boundedBelow || (compare v zero).isGE) && r.comparators.all fun c => c.admits v

def render (r : Requirement) : String :=
  ", ".intercalate (r.comparators.map Comparator.render)

/-- Whether two requirements have the same operators and equal versions, place by place. -/
def matchesTermwise (r s : Requirement) : Bool :=
  r.comparators.length == s.comparators.length &&
    (r.comparators.zip s.comparators).all fun (c, d) =>
      c.op == d.op && (compare c.version d.version).isEq

end Requirement

end UpdatePlanner
