import UpdatePlanner.Data.Datum

/-!
# Readable values

Configuration comes in several formats, which differ in what they take for a text, a list or
nothing.  A format says so once, by an instance of `Readable`; what is made of the values is then
said once for all formats.  Reading may fail, and a format may have to keep count of something on
the way, so each format has a monad to read its values in.

## Main definitions

* `Fallible` — ways of reading that may fail;
* `Readable` — how the values of a format are read;
* `Readable.fields` — the fields of a record, none of the known ones twice;
* `Readable.required`, `Readable.defaulted`, `Readable.optional` — reading a field;
* `Readable Json`, `Readable Datum` — how JSON values and data are read.
-/

namespace UpdatePlanner

/-- A way of reading, step by step, in which a step may fail. -/
class Fallible (m : Type → Type) extends Monad m where
  fail {α : Type} : m α

instance : Fallible Option where
  fail := none

instance {σ : Type} : Fallible (StateT σ Option) where
  fail := fun _ => none

/-- The step that gives a value if there is one, and fails otherwise. -/
def Fallible.ofOption {m : Type → Type} [Fallible m] {α : Type} : Option α → m α
  | some a => pure a
  | none => Fallible.fail

/-- How the values of a format are read. -/
class Readable (ν : Type) (m : outParam (Type → Type)) where
  text : ν → m String
  /-- The value as a word out of a fixed set. -/
  word : ν → m String
  flag : ν → m Bool
  items : ν → m (List ν)
  /-- The value, or nothing where it stands for nothing. -/
  present : ν → m (Option ν)
  /-- The fields of the value as a record with the given field names. -/
  record : List String → ν → m (List (String × ν))
  /-- The entries of the value as a map from names. -/
  entries : ν → m (List (String × ν))
  /-- The value with the type that its form shows. -/
  typed : ν → m Datum

namespace Readable

variable {ν α : Type} {m : Type → Type}

/-- The fields of a list with the given name. -/
def named (name : String) (fields : List (String × ν)) : List ν :=
  (fields.filter fun f => f.1 == name).map Prod.snd

/-- Reads a field, or takes a value for it if it is missing. -/
def defaulted [Monad m] (fields : List (String × ν)) (name : String) (default : α)
    (read : ν → m α) : m α :=
  match (named name fields).head? with
  | some v => read v
  | none => pure default

variable [Fallible m]

/-- Reads a field that has to be there. -/
def required (fields : List (String × ν)) (name : String) (read : ν → m α) : m α :=
  match (named name fields).head? with
  | some v => read v
  | none => Fallible.fail

variable [Readable ν m]

/-- The fields of a record.  Fields with unknown names do not matter, but a known name must not
occur twice. -/
def fields (names : List String) (v : ν) : m (List (String × ν)) := do
  let fields ← record names v
  if names.all fun name => (named name fields).length ≤ 1 then pure fields else Fallible.fail

/-- Reads a field that may be missing or stand for nothing. -/
def optional (fields : List (String × ν)) (name : String) (read : ν → m α) : m (Option α) :=
  defaulted fields name none fun v => do
    match ← present v with
    | none => pure none
    | some v => return some (← read v)

/-- Reads a list, item by item. -/
def list (read : ν → m α) (v : ν) : m (List α) := do
  (← items v).mapM read

def texts (v : ν) : m (List String) :=
  list text v

end Readable

/-- Data show their types.  A list may stand for a record, its items in the order of the fields;
a mapping with one empty entry may stand for a word. -/
instance : Readable Datum Option where
  text | .text s => some s | _ => none
  word
    | .text s => some s
    | .mapping [(.text s, .null)] => some s
    | .mapping [(.text s, .mapping [])] => some s
    | _ => none
  flag | .bool b => some b | _ => none
  items | .list items => some items | _ => none
  present | .null => some none | v => some (some v)
  record names
    | .mapping entries => Datum.namedEntries? names entries
    | .list items => if items.length ≤ names.length then some (names.zip items) else none
    | _ => none
  entries
    | .mapping entries => entries.mapM fun (k, v) => match k with
      | .text name => some (name, v)
      | _ => none
    | _ => none
  typed v := some v

/-- JSON is read like the data that it shows, but nothing except null stands for nothing beside a
word. -/
instance : Readable Json Option where
  text | .string s => some s | _ => none
  word
    | .string s => some s
    | .object [(s, .null)] => some s
    | _ => none
  flag | .bool b => some b | _ => none
  items | .array items => some items | _ => none
  present | .null => some none | v => some (some v)
  record names
    | .object fields => some fields
    | .array items => if items.length ≤ names.length then some (names.zip items) else none
    | _ => none
  entries | .object fields => some fields | _ => none
  typed v := some (.ofJson v)

end UpdatePlanner
