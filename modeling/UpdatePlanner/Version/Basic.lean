import UpdatePlanner.Text.Blank
import UpdatePlanner.Text.Number

/-!
# Versions

One loose scheme serves every ecosystem.  The release part of a version is cut into runs of
digits and runs of letters, its *segments*; whatever stands between two runs only separates them.
A number behind the last underscore is no part of the release: it is the *update number* that
some ecosystems append (`1.8.0_202`).  Reading never fails.

## Main definitions

* `Segment` — one run of a release;
* `Version` — the text as given, its segments, its update number;
* `Version.read` — the version that a text denotes;
* `Version.ofSegments` — the version written with dots between given segments;
* `Version.bump` — the end of the version line that a pessimistic requirement names.

## Main results

* `Version.segments_read_ne_nil` — a version that was read has at least one segment.
-/

namespace UpdatePlanner

open Text

/-- A run of digits, read as a number, or a run of letters. -/
inductive Segment where
  /-- A number, clamped to what is held. -/
  | number (value : Nat)
  | word (letters : String)
  deriving DecidableEq, Repr

namespace Segment

def isNumber : Segment → Bool
  | number _ => true
  | word _ => false

def render : Segment → String
  | number n => toString n
  | word s => s

theorem isDigit_eq_false_of_isAlpha {c : Char} (h : c.isAlpha = true) : c.isDigit = false := by
  have h0 : '0'.val.toNat = 48 := rfl
  have h9 : '9'.val.toNat = 57 := rfl
  have hA : 'A'.val.toNat = 65 := rfl
  have ha : 'a'.val.toNat = 97 := rfl
  unfold Char.isAlpha Char.isUpper Char.isLower at h
  simp only [Bool.or_eq_true, Bool.and_eq_true, decide_eq_true_eq, Char.isDigit,
    UInt32.le_iff_toNat_le, Bool.and_eq_false_iff, decide_eq_false_iff_not, ge_iff_le] at h ⊢
  omega

/-- The segments of a text: its maximal runs of ASCII digits and of ASCII letters, in order. -/
def scan : List Char → List Segment
  | [] => []
  | c :: cs =>
    if c.isDigit then
      number (clamp (digitsValue (c :: cs.takeWhile Char.isDigit))) ::
        scan (cs.dropWhile Char.isDigit)
    else if c.isAlpha then
      word (String.ofList (c :: cs.takeWhile Char.isAlpha)) :: scan (cs.dropWhile Char.isAlpha)
    else
      scan cs
  termination_by cs => cs.length
  decreasing_by
    all_goals simp only [List.length_cons, Nat.lt_succ_iff, Nat.le_refl]
    all_goals exact (List.dropWhile_sublist _).length_le

@[simp] theorem scan_nil : scan [] = [] := by rw [scan]

theorem scan_digit {c : Char} (h : c.isDigit = true) (cs : List Char) :
    scan (c :: cs) = number (clamp (digitsValue (c :: cs.takeWhile Char.isDigit))) ::
      scan (cs.dropWhile Char.isDigit) := by
  rw [scan]; simp [h]

theorem scan_letter {c : Char} (h : c.isAlpha = true) (cs : List Char) :
    scan (c :: cs) = word (String.ofList (c :: cs.takeWhile Char.isAlpha)) ::
      scan (cs.dropWhile Char.isAlpha) := by
  rw [scan]; simp [h, isDigit_eq_false_of_isAlpha h]

theorem scan_separator {c : Char} (hd : c.isDigit = false) (ha : c.isAlpha = false)
    (cs : List Char) : scan (c :: cs) = scan cs := by
  rw [scan]; simp [hd, ha]

end Segment

/-- A version as given, with what it is compared by. -/
structure Version where
  text : String
  segments : List Segment
  /-- The number behind the last underscore, if there is one that can be held. -/
  update : Option Nat
  deriving DecidableEq, Repr

namespace Version

/-- Drops a leading `v` that stands before a digit. -/
def dropMark : List Char → List Char
  | c :: d :: cs => if (c == 'v' || c == 'V') && d.isDigit then d :: cs else c :: d :: cs
  | cs => cs

/-- Cuts an update number from a version: the digits behind the last underscore, if something
stands in front of it. -/
def splitUpdate (cs : List Char) : List Char × Option (List Char) :=
  match splitLast '_' cs with
  | some (release, update) =>
    if !release.isEmpty && isDigits update then (release, some update) else (cs, none)
  | none => (cs, none)

/-- The segments of a release.  A release without letters and digits is one opaque word, and an
empty one is zero. -/
def releaseSegments (release : List Char) : List Segment :=
  match Segment.scan release with
  | [] => [if release.isEmpty then .number 0 else .word (String.ofList release)]
  | s :: ss => s :: ss

/-- The version that a text denotes.  An update number too large to be held counts as absent. -/
def read (raw : String) : Version :=
  let trimmed := trim raw.toList
  let (release, update) := splitUpdate (dropMark trimmed)
  { text := String.ofList trimmed
    segments := releaseSegments release
    update := update.bind number? }

/-- The version with the given segments, written with dots between them; without segments it is
zero. -/
def ofSegments (segments : List Segment) : Version :=
  let segments := if segments.isEmpty then [.number 0] else segments
  { text := ".".intercalate (segments.map Segment.render)
    segments := segments
    update := none }

def isNumeric (v : Version) : Bool :=
  v.segments.all Segment.isNumber

/-- Whether some segment is a word, as in `1.0.0-beta`. -/
def isPrerelease (v : Version) : Bool :=
  !v.isNumeric

/-- The last number of a list raised by one, never above the largest that is held. -/
def raiseLast : List Segment → List Segment
  | [] => [.number 1]
  | [.number n] => [.number (clamp (n + 1))]
  | [.word s] => [.word s]
  | s :: t :: ss => s :: raiseLast (t :: ss)

/-- The first version above the line that `~>` names: of the leading numbers all but the last
are kept, a single one being kept too, and the last of those is raised. -/
def bump (v : Version) : Version :=
  let numbers := v.segments.takeWhile Segment.isNumber
  ofSegments (raiseLast (if numbers.length > 1 then numbers.dropLast else numbers))

theorem releaseSegments_ne_nil (release : List Char) : releaseSegments release ≠ [] := by
  simp only [releaseSegments]; split <;> simp

theorem segments_read_ne_nil (raw : String) : (read raw).segments ≠ [] :=
  releaseSegments_ne_nil _

theorem segments_ofSegments_ne_nil (segments : List Segment) :
    (ofSegments segments).segments ≠ [] := by
  simp only [ofSegments]; split <;> simp_all

end Version

end UpdatePlanner
