/-!
# Tables

A table maps names to values and remembers the order in which the names first came up.  Setting a
name again replaces its value and keeps its place.

## Main definitions

* `Table` — entries with distinct names;
* `Table.get?`, `Table.set` — looking up and setting a name;
* `Table.ofList` — the table of a list of settings, of which the last one for a name counts.

## Main results

* `Table.names_setIn` — a setting adds at most its own name, and behind the others;
* `Table.get?_set_self`, `Table.get?_set_of_ne` — what is looked up after a setting.
-/

namespace UpdatePlanner

/-- Values by name, in the order in which the names first came up. -/
structure Table (α : Type) where
  entries : List (String × α)
  nodup_names : (entries.map Prod.fst).Nodup
  deriving DecidableEq, Repr

namespace Table

variable {α : Type}

def empty : Table α := ⟨[], List.nodup_nil⟩

/-- The value in the entries under a name. -/
def lookup (name : String) : List (String × α) → Option α
  | [] => none
  | (n, a) :: rest => if n = name then some a else lookup name rest

/-- The entries with a name set to a value. -/
def setIn (name : String) (value : α) : List (String × α) → List (String × α)
  | [] => [(name, value)]
  | (n, a) :: rest => if n = name then (n, value) :: rest else (n, a) :: setIn name value rest

/-- A name that is there already keeps its place, and a new one comes last. -/
theorem names_setIn (name : String) (value : α) (entries : List (String × α)) :
    (setIn name value entries).map Prod.fst =
      if name ∈ entries.map Prod.fst then entries.map Prod.fst
      else entries.map Prod.fst ++ [name] := by
  induction entries with
  | nil => simp [setIn]
  | cons e rest ih =>
    by_cases h : e.1 = name
    · simp [setIn, h]
    · simp only [setIn, h, if_false, List.map_cons, ih, List.mem_cons, Ne.symm h, false_or]
      split <;> rfl

theorem nodup_names_setIn (name : String) (value : α) {entries : List (String × α)}
    (h : (entries.map Prod.fst).Nodup) :
    ((setIn name value entries).map Prod.fst).Nodup := by
  rw [names_setIn]
  split
  · exact h
  · rename_i hnew
    refine List.nodup_append.2 ⟨h, by simp, ?_⟩
    intro a ha b hb hab
    exact hnew (List.mem_singleton.1 hb ▸ hab ▸ ha)

def get? (t : Table α) (name : String) : Option α :=
  lookup name t.entries

/-- The table with a name set to a value. -/
def set (t : Table α) (name : String) (value : α) : Table α :=
  ⟨setIn name value t.entries, nodup_names_setIn name value t.nodup_names⟩

/-- The table of a list of settings, made one after another. -/
def ofList (settings : List (String × α)) : Table α :=
  settings.foldl (fun t (name, value) => t.set name value) empty

theorem get?_set_self (t : Table α) (name : String) (value : α) :
    (t.set name value).get? name = some value := by
  simp only [get?, set]
  induction t.entries with
  | nil => simp [setIn, lookup]
  | cons e rest ih => by_cases h : e.1 = name <;> simp [setIn, lookup, h, ih]

theorem get?_set_of_ne {name other : String} (h : other ≠ name) (t : Table α) (value : α) :
    (t.set name value).get? other = t.get? other := by
  simp only [get?, set]
  induction t.entries with
  | nil => simp [setIn, lookup, Ne.symm h]
  | cons e rest ih =>
    by_cases he : e.1 = name
    · simp [setIn, lookup, he, Ne.symm h]
    · by_cases ho : e.1 = other
      · subst ho; simp [setIn, lookup, he]
      · simp [setIn, lookup, he, ho, ih]

end Table

end UpdatePlanner
