import UpdatePlanner.Proofs.Data.Records
import UpdatePlanner.Selection.Encoding

/-!
# Decisions that are written and read back

A decision is written with its kind beside its own fields, and what there is to read beside the
kind depends on it; so all of that is taken in as a datum before it is read. What is absent or empty
is not written at all, the kinds and most reasons are words, and one reason has a message and is an
object of its own. The decision that is read is nevertheless the one that was written, whatever its
texts are: no text is mistaken for something that is absent, and no field for another one.

Only the text of a date may fail to be read. So what is said of a decision with a date is said
under the condition that the text of this date reads back.

## Main definitions

* `Dependency.written`, `Decision.writtenUpdate`, `Decision.writtenSkip`: the fields that are
  written

## Main results

* `Dependency.read_ofJson_toJson`, `SkipReason.read?_ofJson_toJson`: the parts are read back
* `Decision.read?_toJson`: a decision is read back as it was written
-/

namespace UpdatePlanner

open Readable Datum

/-! ### Fields that may be left out -/

@[simp] theorem named_presentField (name n : String) (o : Option Json) :
    named name (presentField n o) = if n = name then o.toList else [] := by
  cases o <;> by_cases h : n = name <;> simp [presentField, named_cons, h]

theorem presentField_sublist (n : String) (o : Option Json) :
    ((presentField n o).map Prod.fst).Sublist [n] := by
  cases o <;> simp [presentField]

theorem ofOption_some {α : Type} (a : α) : (Fallible.ofOption (some a) : Option α) = some a := rfl

/-! ### Dependencies -/

namespace Dependency

/-- The fields of a dependency as they are written. -/
def written (d : Dependency) : List (String × Json) :=
  [("name", .string d.name)] ++ presentField "version" (d.version.map .string) ++
    [("package-manager", .string d.manager.id)] ++
    presentField "groups" (if d.labels.isEmpty then none else some (.ofTexts d.labels))

theorem toJson_eq (d : Dependency) : d.toJson = .object d.written := rfl

/-- No name is written twice. -/
theorem nodup_written (d : Dependency) : (d.written.map Prod.fst).Nodup := by
  have hsub : (d.written.map Prod.fst).Sublist fieldNames := by
    simp only [written, List.map_append]
    exact (((List.Sublist.refl _).append (presentField_sublist ..)).append
      (List.Sublist.refl _)).append (presentField_sublist ..)
  exact hsub.nodup (by decide)

theorem readManager_ofJson (m : PackageManager) :
    readManager (ofJson (.string m.id)) = some m := by
  have hword : word (ofJson (.string m.id)) = some m.id := rfl
  rw [readManager, hword, Option.bind_eq_bind, Option.bind_some, PackageManager.ofId?_id,
    ofOption_some]

theorem read_ofJson_toJson (d : Dependency) : read (ofJson d.toJson) = some d := by
  have hname : required (d.written.map (Prod.map id ofJson)) "name" text = some d.name :=
    required_ofJson (v := .string d.name) (by simp [written, named_cons])
  have hversion :
      Readable.optional (d.written.map (Prod.map id ofJson)) "version" text = some d.version :=
    optional_ofJson Json.string (by simp [written, named_cons]) (fun _ => rfl)
      fun _ _ => rfl
  have hmanager :
      required (d.written.map (Prod.map id ofJson)) "package-manager" readManager =
        some d.manager :=
    (required_ofJson (v := .string d.manager.id) (by simp [written, named_cons])).trans
      (readManager_ofJson d.manager)
  have hlabels :
      defaulted (d.written.map (Prod.map id ofJson)) "groups" [] texts = some d.labels := by
    rw [defaulted_ofJson (o := if d.labels.isEmpty then none else some (.ofTexts d.labels))
      (by simp [written, named_cons])]
    -- A list without members is not written, and is what is read of a field that is missing.
    cases hd : d.labels with
    | nil => rfl
    | cons l ls => exact texts_ofJson_ofTexts (l :: ls)
  rw [toJson_eq, read, fields_ofJson_object d.nodup_written, Option.bind_eq_bind,
    Option.bind_some, ofFields, hname, hversion, hmanager, hlabels]
  rfl

end Dependency

/-! ### Reasons -/

namespace SkipReason

/-- The word for a reason without a message stands for no other reason. -/
theorem ofWord?_word {reason : SkipReason} (h : ∀ message, reason ≠ invalidRange message) :
    ofWord? reason.word = some reason := by
  cases reason with
  | invalidRange message => exact absurd rfl (h message)
  | _ => decide

/-- The message of a reason may be any text, also one that is a word for another reason. -/
theorem read?_ofJson_toJson (reason : SkipReason) :
    read? (ofJson reason.toJson) = some reason := by
  cases reason with
  | invalidRange message =>
    simp only [toJson, ofJson, ofFields, read?, ↓reduceIte]
    rfl
  | _ => exact ofWord?_word (fun _ => by simp)

end SkipReason

/-! ### Decisions -/

namespace Decision

/-- The fields of an update beside its kind. -/
def writtenUpdate (d : Dependency) (version : String) (releasedAt : Option Instant) :
    List (String × Json) :=
  [("dependency", d.toJson), ("new_version", .string version)] ++
    presentField "released_at" (releasedAt.map fun t => .string t.render)

/-- The fields of a skip beside its kind. -/
def writtenSkip (d : Dependency) (reason : SkipReason) : List (String × Json) :=
  [("dependency", d.toJson), ("reason", reason.toJson)]

theorem toJson_update (d : Dependency) (version : String) (releasedAt : Option Instant) :
    (update d version releasedAt).toJson =
      .object (("type", .string "update") :: writtenUpdate d version releasedAt) := rfl

theorem toJson_skip (d : Dependency) (reason : SkipReason) :
    (skip d reason).toJson = .object (("type", .string "skip") :: writtenSkip d reason) := rfl

/-- The kind is taken from beside the other fields, and they stay as they are. -/
theorem tagged?_cons {kind : Json} {fields : List (String × Json)}
    (nodup : ("type" :: fields.map Prod.fst).Nodup) :
    tagged? (.object (("type", kind) :: fields)) = some (kind, ofJson (.object fields)) := by
  have hrest : ((("type", kind) :: fields).filter fun f => f.1 != "type") = fields := by
    rw [List.filter_cons_of_neg (by simp), List.filter_eq_self]
    intro f hf
    have hne : f.1 ≠ "type" :=
      fun he => (List.nodup_cons.mp nodup).1 (he ▸ List.mem_map_of_mem hf)
    simpa using hne
  have hkind : Json.lookup "type" (("type", kind) :: fields) = some kind := if_pos rfl
  rw [tagged?, hkind, hrest]
  rfl

section Fields

variable (d : Dependency)

theorem nodup_update (version : String) (releasedAt : Option Instant) :
    ("type" :: (writtenUpdate d version releasedAt).map Prod.fst).Nodup := by
  have hsub : ("type" :: (writtenUpdate d version releasedAt).map Prod.fst).Sublist
      ["type", "dependency", "new_version", "released_at"] := by
    rw [writtenUpdate, List.map_append, ← List.cons_append]
    exact (List.Sublist.refl _).append (presentField_sublist ..)
  exact hsub.nodup (by decide)

theorem nodup_skip (reason : SkipReason) :
    ("type" :: (writtenSkip d reason).map Prod.fst).Nodup := by
  simp [writtenSkip]

theorem readUpdate?_ofJson {version : String} {releasedAt : Option Instant}
    (date : ∀ t, releasedAt = some t → Instant.read? t.render = some t) :
    readUpdate? (ofJson (.object (writtenUpdate d version releasedAt))) =
      some (update d version releasedAt) := by
  let shown := (writtenUpdate d version releasedAt).map (Prod.map id ofJson)
  have hdependency : required shown "dependency" Dependency.read = some d :=
    (required_ofJson (v := d.toJson) (by simp [writtenUpdate, named_cons])).trans
      d.read_ofJson_toJson
  have hversion : required shown "new_version" text = some version :=
    required_ofJson (v := .string version) (by simp [writtenUpdate, named_cons])
  have hdate : Readable.optional shown "released_at" readInstant = some releasedAt := by
    refine optional_ofJson (fun t : Instant => .string t.render)
      (by simp [writtenUpdate, named_cons]) (fun _ => rfl) fun t ht => ?_
    have htext : text (ofJson (.string t.render)) = some t.render := rfl
    rw [readInstant, htext, Option.bind_eq_bind, Option.bind_some, date t ht, ofOption_some]
  rw [readUpdate?, fields_ofJson_object (nodup_update d version releasedAt).of_cons,
    Option.bind_eq_bind, Option.bind_some, hdependency, hversion, hdate]
  rfl

theorem readSkip?_ofJson (reason : SkipReason) :
    readSkip? (ofJson (.object (writtenSkip d reason))) = some (skip d reason) := by
  let shown := (writtenSkip d reason).map (Prod.map id ofJson)
  have hdependency : required shown "dependency" Dependency.read = some d :=
    (required_ofJson (v := d.toJson) (by simp [writtenSkip, named_cons])).trans
      d.read_ofJson_toJson
  have hreason : required shown "reason" SkipReason.read? = some reason :=
    (required_ofJson (v := reason.toJson) (by simp [writtenSkip, named_cons])).trans
      reason.read?_ofJson_toJson
  rw [readSkip?, fields_ofJson_object (nodup_skip d reason).of_cons, Option.bind_eq_bind,
    Option.bind_some, hdependency, hreason]
  rfl

end Fields

/-- **A decision is read back as it was written**, whatever its texts, its labels and its reason
are, if the text of its date reads back. -/
theorem read?_toJson (r : Decision)
    (date : ∀ d version t, r = update d version (some t) → Instant.read? t.render = some t) :
    read? r.toJson = some r := by
  cases r with
  | update d version releasedAt =>
    rw [toJson_update, read?, tagged?_cons (nodup_update d version releasedAt),
      Option.bind_eq_bind, Option.bind_some]
    exact readUpdate?_ofJson d fun t ht => date d version t (ht ▸ rfl)
  | skip d reason =>
    rw [toJson_skip, read?, tagged?_cons (nodup_skip d reason), Option.bind_eq_bind,
      Option.bind_some]
    exact readSkip?_ofJson d reason

/-- An update to a version that was released half a second before a new year. -/
def datedUpdate : Decision :=
  update ⟨"rake", some "12.3", .bundler, ["default", "test"]⟩ "13.0" (some ⟨1704067199, 500000000⟩)

theorem read?_toJson_datedUpdate : read? datedUpdate.toJson = some datedUpdate :=
  read?_toJson datedUpdate fun _ _ t ht => by
    obtain ⟨-, -, ht⟩ := Decision.update.inj ht
    obtain rfl := Option.some.inj ht
    decide

end Decision

end UpdatePlanner
