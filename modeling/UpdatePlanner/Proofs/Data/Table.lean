import Mathlib.Data.List.Induction
import Mathlib.Data.List.Basic
import UpdatePlanner.Data.Table

/-!
# Tables of settings

Of the settings for one name the first one decides on its place in the table and the last one on
its value. A table is the table of its own entries, as these have distinct names.

## Main results

* `Table.mem_entries_iff`: the entries of a table are what is looked up in it
* `Table.names_ofList`, `Table.get?_ofList`: the names of the table of some settings, and its values
* `Table.entries_ofList_of_nodup`, `Table.ofList_entries`: settings with distinct names are the
  entries of their table
-/

namespace UpdatePlanner

namespace Table

variable {α : Type}

theorem mem_of_lookup {name : String} {value : α} {entries : List (String × α)}
    (h : lookup name entries = some value) : (name, value) ∈ entries := by
  induction entries with
  | nil => cases h
  | cons entry rest ih =>
    obtain ⟨n, a⟩ := entry
    rw [lookup] at h
    by_cases hn : n = name
    · rw [if_pos hn, Option.some.injEq] at h
      rw [hn, h]
      exact List.mem_cons_self
    · rw [if_neg hn] at h
      exact List.mem_cons_of_mem _ (ih h)

theorem lookup_of_mem {name : String} {value : α} {entries : List (String × α)}
    (hnodup : (entries.map Prod.fst).Nodup) (h : (name, value) ∈ entries) :
    lookup name entries = some value := by
  induction entries with
  | nil => cases h
  | cons entry rest ih =>
    obtain ⟨n, a⟩ := entry
    obtain ⟨hnew, hrest⟩ := List.nodup_cons.mp hnodup
    rw [lookup]
    rcases List.mem_cons.mp h with h | h
    · obtain ⟨rfl, rfl⟩ := Prod.mk.inj h
      rw [if_pos rfl]
    · -- The name comes up again behind, and so it is not that of the first entry.
      have hn : n ≠ name := fun hn => hnew (List.mem_map.mpr ⟨(name, value), h, hn.symm⟩)
      rw [if_neg hn]
      exact ih hrest h

/-- **The entries are what is looked up**, as no name has two of them. -/
theorem mem_entries_iff {t : Table α} {name : String} {value : α} :
    (name, value) ∈ t.entries ↔ t.get? name = some value :=
  ⟨lookup_of_mem t.nodup_names, mem_of_lookup⟩

theorem entries_set (t : Table α) (name : String) (value : α) :
    (t.set name value).entries = setIn name value t.entries :=
  rfl

theorem ofList_concat (settings : List (String × α)) (name : String) (value : α) :
    ofList (settings ++ [(name, value)]) = (ofList settings).set name value := by
  rw [ofList, List.foldl_append]
  rfl

/-- **Names keep the order in which they first came up.** -/
theorem names_ofList (settings : List (String × α)) :
    (ofList settings).entries.map Prod.fst = (settings.map Prod.fst).eraseDups := by
  -- By induction from the last setting on: it adds its name unless that has come up before it.
  induction settings using List.reverseRecOn with
  | nil => rfl
  | append_singleton settings setting ih =>
    obtain ⟨name, value⟩ := setting
    rw [ofList_concat, entries_set, names_setIn, ih, List.map_append, List.eraseDups_append]
    by_cases hname : name ∈ settings.map Prod.fst
    · rw [if_pos (List.mem_eraseDups.mpr hname)]
      simp [List.removeAll, hname]
    · rw [if_neg (fun h => hname (List.mem_eraseDups.mp h))]
      simp [List.removeAll, hname, List.eraseDups_cons]

/-- **The last setting for a name counts.** -/
theorem get?_ofList (settings : List (String × α)) (name : String) :
    (ofList settings).get? name =
      (settings.findRev? fun setting => setting.1 == name).map Prod.snd := by
  -- By induction from the last setting on, which is the one that is found if it has the name.
  induction settings using List.reverseRecOn with
  | nil => rfl
  | append_singleton settings setting ih =>
    obtain ⟨n, a⟩ := setting
    rw [ofList_concat, List.findRev?_eq_find?_reverse, List.reverse_concat, List.find?_cons,
      ← List.findRev?_eq_find?_reverse]
    by_cases hn : n = name
    · simp [hn, get?_set_self]
    · rw [get?_set_of_ne (Ne.symm hn), ih, beq_eq_false_iff_ne.mpr hn]

theorem setIn_of_notMem {name : String} {entries : List (String × α)} (value : α)
    (h : name ∉ entries.map Prod.fst) : setIn name value entries = entries ++ [(name, value)] := by
  induction entries with
  | nil => rfl
  | cons entry rest ih =>
    obtain ⟨hn, hrest⟩ := not_or.mp (List.mem_cons.not.mp h)
    rw [setIn, if_neg (Ne.symm hn), ih hrest, List.cons_append]

/-- Settings with distinct names are all kept. -/
theorem entries_ofList_of_nodup {settings : List (String × α)}
    (h : (settings.map Prod.fst).Nodup) : (ofList settings).entries = settings := by
  induction settings using List.reverseRecOn with
  | nil => rfl
  | append_singleton settings setting ih =>
    obtain ⟨name, value⟩ := setting
    rw [List.map_append, List.nodup_append] at h
    obtain ⟨hsettings, -, hdisjoint⟩ := h
    have hnew : name ∉ settings.map Prod.fst := fun hmem =>
      hdisjoint name hmem name (List.mem_singleton_self name) rfl
    rw [ofList_concat, entries_set, ih hsettings, setIn_of_notMem value hnew]

theorem ofList_entries (t : Table α) : ofList t.entries = t := by
  obtain ⟨entries, hnodup⟩ := t
  rw [Table.mk.injEq]
  exact entries_ofList_of_nodup hnodup

end Table

end UpdatePlanner
