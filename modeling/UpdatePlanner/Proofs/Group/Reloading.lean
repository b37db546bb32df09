import UpdatePlanner.Group.Text
import UpdatePlanner.Proofs.Data.Table
import UpdatePlanner.Proofs.Group.Reading
import UpdatePlanner.Proofs.Traversal

/-!
# Groups that are written and read again

The document of some groups keeps the settings of each name, and the groups of the document are
read from these again. Under distinct names nothing is lost on that way but the members. Of groups
with one name the last one comes back, in the place of the first; once more nothing is lost, so
that the document of the groups that came back is the document itself.

The way through text is left to the text: a text that holds the document that it was made from
holds the groups.

## Main definitions

* `lastNamed? groups name`: the last group of a name
* `GroupDocument.Reloads groups reloaded`: groups come back as other ones
* `GroupDocument.HeldBy text e groups`: a text holds a document of some groups

## Main results

* `GroupDocument.ofGroups_of_toGroups`: the document of the groups of a document
* `GroupDocument.exists_reloads_ofGroups`: groups that were read come back
-/

namespace UpdatePlanner

/-- The last group of a name. -/
def lastNamed? (groups : List DependencyGroup) (name : String) : Option DependencyGroup :=
  groups.findRev? fun g => g.name == name

theorem name_of_lastNamed? {groups : List DependencyGroup} {name : String} {g : DependencyGroup}
    (h : lastNamed? groups name = some g) : g.name = name := by
  rw [lastNamed?, List.findRev?_eq_find?_reverse] at h
  have hname := List.find?_some h
  exact beq_iff_eq.mp hname

theorem mem_of_lastNamed? {groups : List DependencyGroup} {name : String} {g : DependencyGroup}
    (h : lastNamed? groups name = some g) : g ∈ groups := by
  rw [lastNamed?, List.findRev?_eq_find?_reverse] at h
  exact List.mem_reverse.mp (List.mem_of_find?_eq_some h)

namespace GroupDocument

variable {groups reloaded : List DependencyGroup} {document : GroupDocument} {experimental : Bool}

/-! ## The document of some groups -/

theorem names_ofGroups (groups : List DependencyGroup) :
    (ofGroups groups).groups.entries.map Prod.fst =
      (groups.map DependencyGroup.name).eraseDups := by
  rw [ofGroups, Table.names_ofList, List.map_map]
  rfl

/-- **The entries are the settings of the last group of each name.** -/
theorem mem_entries_ofGroups_iff {name : String} {settings : GroupSettings} :
    (name, settings) ∈ (ofGroups groups).groups.entries ↔
      ∃ g, lastNamed? groups name = some g ∧ g.rules.settings = settings := by
  rw [Table.mem_entries_iff, ofGroups, Table.get?_ofList, List.findRev?_eq_find?_reverse,
    ← List.map_reverse, List.find?_map, ← List.findRev?_eq_find?_reverse, Option.map_map,
    Option.map_eq_some_iff]
  rfl

theorem entries_ofGroups_of_nodup (h : (groups.map DependencyGroup.name).Nodup) :
    (ofGroups groups).groups.entries = groups.map fun g => (g.name, g.rules.settings) := by
  apply Table.entries_ofList_of_nodup
  rw [List.map_map]
  exact h

/-! ## The groups of a document -/

/-- What is written of the groups of a document are its entries. -/
theorem map_of_toGroups (h : document.toGroups experimental = .ok groups) :
    groups.map (fun g => (g.name, g.rules.settings)) = document.groups.entries := by
  -- Entry by entry: a group has the name that it is read under, and its rules the settings.
  rw [← List.forall₂_eq_eq_eq, List.forall₂_map_left_iff]
  refine (mapM_eq_ok_iff_forall₂.mp h).flip.imp ?_
  rintro g ⟨name, settings⟩ hread
  rw [DependencyGroup.name_of_read? hread, DependencyGroup.settings_of_read? hread]

/-- **The document of the groups of a document is the document itself.** -/
theorem ofGroups_of_toGroups (h : document.toGroups experimental = .ok groups) :
    ofGroups groups = document := by
  rw [ofGroups, map_of_toGroups h, Table.ofList_entries]

theorem names_of_toGroups (h : document.toGroups experimental = .ok groups) :
    groups.map DependencyGroup.name = document.groups.entries.map Prod.fst := by
  rw [← map_of_toGroups h, List.map_map]
  rfl

/-! ## Reloading -/

section IsRead

variable (hread : ∀ g ∈ groups, g.IsRead experimental)
include hread

/-- What is read of an entry is the last group of its name, without its members. -/
theorem read?_entry {name : String} {settings : GroupSettings}
    (h : (name, settings) ∈ (ofGroups groups).groups.entries) :
    ∃ g, lastNamed? groups name = some g ∧
      DependencyGroup.read? name settings experimental = .ok (g.withMembers []) := by
  obtain ⟨g, hlast, rfl⟩ := mem_entries_ofGroups_iff.mp h
  obtain rfl := name_of_lastNamed? hlast
  exact ⟨g, hlast, (hread g (mem_of_lastNamed? hlast)).read?_settings⟩

theorem exists_toGroups_ofGroups :
    ∃ reloaded, (ofGroups groups).toGroups experimental = .ok reloaded := by
  apply exists_mapM_eq_ok
  rintro ⟨name, settings⟩ hentry
  obtain ⟨g, -, hg⟩ := read?_entry hread hentry
  exact ⟨g.withMembers [], hg⟩

theorem exists_lastNamed?_of_toGroups
    (h : (ofGroups groups).toGroups experimental = .ok reloaded) {g' : DependencyGroup}
    (hg' : g' ∈ reloaded) : ∃ g, lastNamed? groups g'.name = some g ∧ g'.IsReloadOf g := by
  obtain ⟨⟨name, settings⟩, hentry, hread'⟩ := exists_mem_of_mem_mapM h hg'
  -- The group that came back was read of an entry, which holds the last group of its name.
  obtain ⟨g, hlast, hg⟩ := read?_entry hread hentry
  obtain rfl : g.withMembers [] = g' := Except.ok.inj (hg.symm.trans hread')
  refine ⟨g, ?_, g.isReloadOf_withMembers⟩
  rw [DependencyGroup.name_of_read? hread']
  exact hlast

theorem toGroups_ofGroups_of_nodup (hnodup : (groups.map DependencyGroup.name).Nodup) :
    (ofGroups groups).toGroups experimental = .ok (groups.map fun g => g.withMembers []) := by
  rw [toGroups, entries_ofGroups_of_nodup hnodup, mapM_eq_ok_iff, List.map_map, List.map_map]
  exact List.map_congr_left fun g hg => (hread g hg).read?_settings

end IsRead

/-- Groups come back as other ones: one for each name, in the order in which the names first came
up, and the last group of the name; under distinct names, each of them. What is written of them is
the same. -/
structure Reloads (groups reloaded : List DependencyGroup) : Prop where
  names : reloaded.map DependencyGroup.name = (groups.map DependencyGroup.name).eraseDups
  last : ∀ g' ∈ reloaded, ∃ g, lastNamed? groups g'.name = some g ∧ g'.IsReloadOf g
  each : (groups.map DependencyGroup.name).Nodup →
    List.Forall₂ DependencyGroup.IsReloadOf reloaded groups
  document : ofGroups reloaded = ofGroups groups

/-- A text holds a document of some groups. -/
def HeldBy (text : String) (experimental : Bool) (groups : List DependencyGroup) : Prop :=
  ∃ document, ofText? text = .ok document ∧ document.toGroups experimental = .ok groups

/-- **Groups that were read come back** from their document, and from its text if that holds the
document. What came back is written as the same text, so that it comes back unchanged. -/
theorem exists_reloads_ofGroups (hread : ∀ g ∈ groups, g.IsRead experimental) :
    ∃ reloaded, (ofGroups groups).toGroups experimental = .ok reloaded ∧
      Reloads groups reloaded ∧
      (ofGroups reloaded).render = (ofGroups groups).render ∧
      (ofText? (ofGroups groups).render = .ok (ofGroups groups) →
        HeldBy (ofGroups groups).render experimental reloaded) := by
  obtain ⟨reloaded, h⟩ := exists_toGroups_ofGroups hread
  have hdocument : ofGroups reloaded = ofGroups groups := ofGroups_of_toGroups h
  refine ⟨reloaded, h, ⟨?_, ?_, ?_, hdocument⟩, by rw [hdocument], ?_⟩
  · rw [names_of_toGroups h, names_ofGroups]
  · intro g' hg'
    exact exists_lastNamed?_of_toGroups hread h hg'
  · intro hnodup
    -- Under distinct names the document has an entry for each group.
    rw [toGroups_ofGroups_of_nodup hread hnodup, Except.ok.injEq] at h
    rw [← h, List.forall₂_map_left_iff]
    exact List.forall₂_same.mpr fun g _ => g.isReloadOf_withMembers
  · intro htext
    exact ⟨ofGroups groups, htext, h⟩

/-- Groups of which two have one name, with a kind that no dependency fits and with patterns that
are absent and patterns that are none. -/
def webGroups : List DependencyGroup :=
  [("web", ⟨some ["rails*"], none, none, some "patch"⟩),
    ("tools", ⟨none, some [], none, some "minor"⟩),
    ("web", ⟨some ["ra*"], none, some "optional", none⟩)].filterMap
      fun (name, settings) => (DependencyGroup.read? name settings true).toOption

theorem exists_reloads_ofGroups_webGroups :
    webGroups.map DependencyGroup.name = ["web", "tools", "web"] ∧
      (∀ g ∈ webGroups, g.IsRead true) ∧
      ofText? (ofGroups webGroups).render = .ok (ofGroups webGroups) ∧
      ∃ reloaded, (ofGroups webGroups).toGroups true = .ok reloaded ∧
        Reloads webGroups reloaded ∧
        (ofGroups reloaded).render = (ofGroups webGroups).render ∧
        HeldBy (ofGroups webGroups).render true reloaded ∧
        reloaded.map DependencyGroup.name = ["web", "tools"] := by
  have hread : ∀ g ∈ webGroups, g.IsRead true := by
    intro g hg
    obtain ⟨⟨name, settings⟩, -, hsome⟩ := List.mem_filterMap.mp hg
    exact DependencyGroup.isRead_of_read? (toOption_eq_some_iff.mp hsome)
  have htext : ofText? (ofGroups webGroups).render = .ok (ofGroups webGroups) := by
    -- To write and read a whole document takes too many steps to be unfolded one by one.
    decide +kernel
  obtain ⟨reloaded, h, hreloads, hrender, hheld⟩ := exists_reloads_ofGroups hread
  refine ⟨by decide +kernel, hread, htext, reloaded, h, hreloads, hrender, hheld htext, ?_⟩
  rw [hreloads.names]
  decide +kernel

end GroupDocument

end UpdatePlanner
