import UpdatePlanner.Data.Table
import UpdatePlanner.Group.Basic

/-!
# The document of groups

Groups are kept in a document that maps their names to their settings.

## Main definitions

* `GroupDocument` — settings by group name;
* `GroupDocument.ofGroups` — the document of some groups; of groups with one name the last one
  counts, in the place of the first;
* `GroupDocument.toGroups` — the groups of a document, in its order.
-/

namespace UpdatePlanner

/-- Settings by group name. -/
structure GroupDocument where
  groups : Table GroupSettings
  deriving DecidableEq, Repr

namespace GroupDocument

/-- The document of some groups. -/
def ofGroups (groups : List DependencyGroup) : GroupDocument :=
  ⟨Table.ofList (groups.map fun g => (g.name, g.rules.settings))⟩

/-- The groups of a document; the first faulty one is reported. -/
def toGroups (document : GroupDocument) (experimental : Bool) :
    Except PolicyFailure (List DependencyGroup) :=
  document.groups.entries.mapM fun (name, settings) =>
    DependencyGroup.read? name settings experimental

end GroupDocument

end UpdatePlanner
