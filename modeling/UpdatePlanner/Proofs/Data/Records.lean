import UpdatePlanner.Data.Readable

/-!
# Objects as records

An object that is taken in as a datum is a record with the fields that it had, in their order. What
is read of a field is then read of the value that was written under its name, and a field that was
left out is one that is missing.

## Main results

* `fields_ofJson_object`: the fields of an object whose names are distinct
* `required_ofJson`, `defaulted_ofJson`, `optional_ofJson`: what is read of one of them
* `texts_ofJson_ofTexts`: a list of texts
-/

namespace UpdatePlanner

variable {α ν : Type}

/-! ### Fields by their names -/

namespace Readable

variable {name : String} {fields : List (String × ν)}

@[simp] theorem named_nil : named name ([] : List (String × ν)) = [] := rfl

theorem named_cons (f : String × ν) :
    named name (f :: fields) = (if f.1 = name then [f.2] else []) ++ named name fields := by
  by_cases h : f.1 = name <;> simp [named, h]

@[simp] theorem named_append (others : List (String × ν)) :
    named name (fields ++ others) = named name fields ++ named name others := by
  simp [named]

theorem named_map {β : Type} (k : ν → β) :
    named name (fields.map (Prod.map id k)) = (named name fields).map k := by
  simp only [named, List.filter_map, List.map_map]
  rfl

theorem named_eq_nil (h : name ∉ fields.map Prod.fst) : named name fields = [] := by
  rw [named, List.map_eq_nil_iff, List.filter_eq_nil_iff]
  intro f hf hname
  exact h (List.mem_map.mpr ⟨f, hf, beq_iff_eq.mp hname⟩)

/-- Of distinct names each occurs once at most. -/
theorem length_named_le_one (nodup : (fields.map Prod.fst).Nodup) :
    (named name fields).length ≤ 1 := by
  induction fields with
  | nil => simp
  | cons f fields ih =>
    obtain ⟨hnot, hfields⟩ := List.nodup_cons.mp nodup
    by_cases h : f.1 = name
    · rw [named_cons, if_pos h, named_eq_nil (h ▸ hnot)]
      exact Nat.le_refl 1
    · rw [named_cons, if_neg h]
      exact ih hfields

end Readable

/-! ### Objects as data -/

namespace Datum

open Readable

variable {names : List String} {fields : List (String × Json)} {name : String}

theorem ofItems_eq_map (items : List Json) : ofItems items = items.map ofJson := by
  induction items with
  | nil => rfl
  | cons v vs ih => rw [ofItems, ih, List.map_cons]

theorem ofFields_eq_map : ofFields fields = fields.map (Prod.map text ofJson) := by
  induction fields with
  | nil => rfl
  | cons f fields ih => rw [ofFields, ih, List.map_cons, Prod.map]

/-- Every name of an object is one of a record, whether it is known or not. -/
theorem namedEntries?_ofFields :
    namedEntries? names (ofFields fields) = some (fields.map (Prod.map id ofJson)) := by
  have hnames : (ofFields fields).mapM
      (fun kv : Datum × Datum => (kv.1.fieldName? names).map fun name => (name, kv.2)) =
        some (fields.map (Prod.map some ofJson)) := by
    rw [ofFields_eq_map, List.mapM_map]
    exact List.mapM_pure
  unfold namedEntries?
  rw [hnames, Option.bind_eq_bind, Option.bind_some, List.filterMap_map]
  exact congrArg some (congrFun (List.filterMap_eq_map (f := Prod.map id ofJson)) fields)

theorem fields_ofJson_object (nodup : (fields.map Prod.fst).Nodup) :
    Readable.fields names (ofJson (.object fields)) =
      some (fields.map (Prod.map id ofJson)) := by
  have hrecord : record names (ofJson (.object fields)) =
      some (fields.map (Prod.map id ofJson)) := namedEntries?_ofFields
  have honce : (names.all fun name =>
      (named name (fields.map (Prod.map id ofJson))).length ≤ 1) = true := by
    simp only [named_map, List.length_map, List.all_eq_true, decide_eq_true_eq]
    exact fun name _ => length_named_le_one nodup
  rw [Readable.fields, hrecord, Option.bind_eq_bind, Option.bind_some, if_pos honce]
  rfl

section Field

variable {read : Datum → Option α}

theorem required_ofJson {v : Json} (h : named name fields = [v]) :
    required (fields.map (Prod.map id ofJson)) name read = read (ofJson v) := by
  rw [required, named_map, h]
  rfl

/-- A field that was left out is read as its default. -/
theorem defaulted_ofJson {o : Option Json} (h : named name fields = o.toList) (default : α) :
    defaulted (fields.map (Prod.map id ofJson)) name default read =
      o.elim (some default) fun v => read (ofJson v) := by
  rw [defaulted, named_map, h]
  cases o <;> rfl

/-- A field that may be left out is read back if the value that it was written with is. What is
written must not look like nothing. -/
theorem optional_ofJson {o : Option α} (write : α → Json)
    (h : named name fields = (o.map write).toList)
    (present : ∀ a, Readable.present (ofJson (write a)) = some (some (ofJson (write a))))
    (back : ∀ a, o = some a → read (ofJson (write a)) = some a) :
    Readable.optional (fields.map (Prod.map id ofJson)) name read = some o := by
  rw [Readable.optional, defaulted_ofJson h]
  cases o with
  | none => rfl
  | some a =>
    simp only [Option.map_some, Option.elim_some, present, Option.bind_eq_bind, Option.bind_some,
      back a rfl]
    rfl

end Field

theorem texts_ofJson_ofTexts (ts : List String) :
    Readable.texts (ofJson (.ofTexts ts)) = some ts := by
  have hitems : items (ofJson (.ofTexts ts)) = some (ts.map text) := by
    rw [Json.ofTexts, ofJson, ofItems_eq_map, List.map_map]
    rfl
  have hread : (ts.map text).mapM Readable.text = some ts := by
    rw [List.mapM_map]
    exact List.mapM_pure.trans (congrArg some (List.map_id ts))
  rw [Readable.texts, Readable.list, hitems]
  exact hread

end Datum

end UpdatePlanner
