import UpdatePlanner.Data.Json

/-!
# Data that show their types

Sometimes a value has to be taken in before it is known what is to be read from it.  What is kept
of it then is a *datum*: a value with the type that its form shows, and no more than that.

## Main definitions

* `Datum` — values with their types;
* `Datum.ofJson` — a JSON value as a datum;
* `Datum.fieldName?` — the field that a key of a record stands for.
-/

namespace UpdatePlanner

/-- A value with the type that its form shows. -/
inductive Datum where
  | null
  | bool (b : Bool)
  /-- A whole number that is not negative. -/
  | whole (n : Nat)
  /-- Any other number. -/
  | number
  | text (s : String)
  | list (items : List Datum)
  /-- A mapping; its keys can be anything. -/
  | mapping (entries : List (Datum × Datum))
  deriving Inhabited, Repr

namespace Datum

mutual

/-- A JSON value as a datum.  What a number is does not matter, since none is ever a key. -/
def ofJson : Json → Datum
  | .null => null
  | .bool b => bool b
  | .number _ => number
  | .string s => text s
  | .array items => list (ofItems items)
  | .object fields => mapping (ofFields fields)

def ofItems : List Json → List Datum
  | [] => []
  | v :: vs => ofJson v :: ofItems vs

/-- The fields of an object as data. -/
def ofFields : List (String × Json) → List (Datum × Datum)
  | [] => []
  | (name, v) :: vs => (text name, ofJson v) :: ofFields vs

end

/-- The field that a key stands for in a record with the given fields: the one with its name, or
with its place among the fields if the key is a number.  A number beyond them stands for none,
and nothing else can be a key. -/
def fieldName? (names : List String) : Datum → Option (Option String)
  | text name => some (some name)
  | whole n => some names[n]?
  | _ => none

/-- The fields of a mapping that is a record with the given fields. -/
def namedEntries? (names : List String) (entries : List (Datum × Datum)) :
    Option (List (String × Datum)) := do
  let named ← entries.mapM fun (k, v) => (k.fieldName? names).map fun name => (name, v)
  return named.filterMap fun (name, v) => name.map fun n => (n, v)

end Datum

end UpdatePlanner
