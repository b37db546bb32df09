import UpdatePlanner.Data.Table

/-!
# Experiments

A job may switch experimental behaviour on by name.  What is not mentioned is off.

## Main definitions

* `Experiments` — the switches of a job;
* `Experiments.isEnabled` — whether a switch is on.

## Main results

* `Experiments.isEnabled_register_self` — a switch is as it was last set.
-/

namespace UpdatePlanner

/-- The switches of a job. -/
structure Experiments where
  flags : Table Bool
  deriving DecidableEq, Repr

namespace Experiments

def none : Experiments := ⟨.empty⟩

/-- The switch that turns ceilings of groups on. -/
def groupRules : String := "grouped_updates_experimental_rules"

def register (e : Experiments) (name : String) (value : Bool) : Experiments :=
  ⟨e.flags.set name value⟩

def isEnabled (e : Experiments) (name : String) : Bool :=
  (e.flags.get? name).getD false

theorem isEnabled_register_self (e : Experiments) (name : String) (value : Bool) :
    (e.register name value).isEnabled name = value := by
  simp [isEnabled, register, Table.get?_set_self]

theorem isEnabled_register_of_ne {name other : String} (h : other ≠ name) (e : Experiments)
    (value : Bool) : (e.register name value).isEnabled other = e.isEnabled other := by
  simp [isEnabled, register, Table.get?_set_of_ne h]

end Experiments

end UpdatePlanner
