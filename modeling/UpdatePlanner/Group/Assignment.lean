import UpdatePlanner.Group.Basic

/-!
# Assigning dependencies to groups

Every dependency joins all the groups that contain it; what no group contains is set aside.  This
happens once.

## Main definitions

* `Assignment` — the groups, and what is in none of them;
* `Assignment.assign` — assigns dependencies, unless that was done before;
* `Assignment.groupsOf` — the groups a dependency has joined.
-/

namespace UpdatePlanner

/-- Groups, with what was assigned to them. -/
structure Assignment where
  groups : List DependencyGroup
  ungrouped : List Dependency
  assigned : Bool
  deriving DecidableEq, Repr

namespace Assignment

/-- The groups before anything is assigned to them. -/
def start (groups : List DependencyGroup) : Assignment :=
  ⟨groups, [], false⟩

def find? (a : Assignment) (name : String) : Option DependencyGroup :=
  a.groups.find? fun g => g.name == name

/-- The groups that have a member with the dependency's name. -/
def groupsOf (a : Assignment) (d : Dependency) : List DependencyGroup :=
  a.groups.filter fun g => g.hasMember d.name

/-- A group after a dependency was offered to it: it joins if it belongs there and none of its
name has joined. -/
def join (d : Dependency) (g : DependencyGroup) : DependencyGroup :=
  if g.contains d && !g.hasMember d.name then g.addMember d else g

/-- Offers a dependency to all groups, and sets it aside if none contains it. -/
def place (a : Assignment) (d : Dependency) : Assignment :=
  { a with
    groups := a.groups.map (join d)
    ungrouped := if a.groups.any fun g => g.contains d then a.ungrouped else a.ungrouped ++ [d] }

/-- Assigns dependencies one after another.  It fails if that was done before. -/
def assign (a : Assignment) (ds : List Dependency) : Except PolicyFailure Assignment :=
  if a.assigned then .error .alreadyAssigned
  else .ok { ds.foldl place a with assigned := true }

end Assignment

end UpdatePlanner
