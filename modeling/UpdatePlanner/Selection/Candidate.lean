import UpdatePlanner.Calendar.Instant
import UpdatePlanner.Version.Order

/-!
# Candidates

A candidate is a published version of a package, with its date if the registry gives one.

## Main definitions

* `Candidate` — a published version;
* `Ord Candidate` — by version, and between equal versions by text;
* `Candidate.highest?` — the highest of several candidates, the last of equals.

## Main results

* `Candidate.highest?_eq_none_iff` — only an empty list has no highest candidate;
* `Candidate.mem_of_highest?` — the highest candidate is one of them.
-/

namespace UpdatePlanner

/-- A published version of a package. -/
structure Candidate where
  version : String
  releasedAt : Option Instant
  deriving DecidableEq, Repr

namespace Candidate

/-- The version that the candidate's text denotes. -/
def parsed (c : Candidate) : Version :=
  Version.read c.version

def isPrerelease (c : Candidate) : Bool :=
  c.parsed.isPrerelease

/-- Whether the candidate was released by a given time.  One without a date counts as old
enough. -/
def releasedBy (c : Candidate) (t : Instant) : Bool :=
  c.releasedAt.all fun released => decide (released ≤ t)

instance : Ord Candidate where
  compare c d := (compare c.parsed d.parsed).then (compare c.version d.version)

/-- The later of two candidates that compare equal, and else the higher one. -/
def higher (c d : Candidate) : Candidate :=
  if (compare d c).isLT then c else d

/-- The highest of several candidates, the last of equals. -/
def highest? : List Candidate → Option Candidate
  | [] => none
  | c :: cs => some (cs.foldl higher c)

/-- The candidates from lowest to highest; equal ones keep their places. -/
def sort (cs : List Candidate) : List Candidate :=
  cs.mergeSort fun c d => (compare c d).isLE

theorem highest?_eq_none_iff (cs : List Candidate) : highest? cs = none ↔ cs = [] := by
  cases cs <;> simp [highest?]

theorem foldl_higher_mem (cs : List Candidate) (c : Candidate) :
    cs.foldl higher c ∈ c :: cs := by
  induction cs generalizing c with
  | nil => simp
  | cons d cs ih =>
    have h := ih (higher c d)
    rw [List.foldl_cons]
    rcases List.mem_cons.mp h with h | h
    · rw [h, higher]; split <;> simp
    · simp [h]

theorem mem_of_highest? {cs : List Candidate} {c : Candidate} (h : highest? cs = some c) :
    c ∈ cs := by
  cases cs with
  | nil => simp [highest?] at h
  | cons d ds =>
    rw [highest?, Option.some.injEq] at h
    exact h ▸ foldl_higher_mem ds d

end Candidate

end UpdatePlanner
