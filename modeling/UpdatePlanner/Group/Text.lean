import UpdatePlanner.Group.Document
import UpdatePlanner.Job.Reader
import UpdatePlanner.Yaml.Value
import UpdatePlanner.Yaml.Writer

/-!
# Groups as configuration text

## Main definitions

* `GroupDocument.render` — the text of a document of groups;
* `GroupDocument.ofText?` — the document that a text holds;
* `DependencyGroup.render` — the text of one group.
-/

namespace UpdatePlanner

open Yaml

/-- A list of texts as a part of a document. -/
def Yaml.Tree.ofTexts (texts : List String) : Tree :=
  .list (texts.map .text)

/-- An entry that is left out where its value is absent. -/
def Yaml.Tree.presentEntry (name : String) : Option Tree → List (String × Tree)
  | some t => [(name, t)]
  | none => []

/-- The settings of a group as a part of a document. -/
def GroupSettings.tree (s : GroupSettings) : Tree :=
  .map <|
    Tree.presentEntry "patterns" (s.patterns.map Tree.ofTexts) ++
      Tree.presentEntry "exclude-patterns" (s.excludePatterns.map Tree.ofTexts) ++
      Tree.presentEntry "dependency-type" (s.dependencyType.map .text) ++
      Tree.presentEntry GroupRules.ceilingKey (s.highestAllowed.map .text)

namespace GroupDocument

/-- The document to be written. -/
def tree (document : GroupDocument) : Tree :=
  .map [("groups", .map (document.groups.entries.map fun (name, s) => (name, s.tree)))]

/-- The text of a document of groups. -/
def render (document : GroupDocument) : String :=
  document.tree.render

/-- The document of groups that a text holds. -/
def ofText? (text : String) : Except Fault GroupDocument := do
  match (← Document.read? text).value? read with
  | some document => return document
  | none => throw .unexpectedShape

end GroupDocument

def DependencyGroup.render (g : DependencyGroup) : String :=
  (GroupDocument.ofGroups [g]).render

/-- The job that a text holds.  A blank text holds an empty job. -/
def Job.ofText? (text : String) : Except Fault Job := do
  if Text.AllBlank text.toList then
    return .empty
  match (← Document.read? text).value? Job.read with
  | some job => return job
  | none => throw .unexpectedShape

end UpdatePlanner
