import UpdatePlanner.Job.Reader
import UpdatePlanner.Proofs.Data.Occurrences
import UpdatePlanner.Proofs.Ignore.Derivation

/-!
# Configured conditions

Configuration leaves out what it does not restrict, so a condition with neither ranges nor kinds of
updates ignores every version. A name that is misspelt must not have that effect: it names no kind,
and where no kind is left, nothing is to be ignored rather than everything. The condition therefore
keeps "no kinds were given" and "none of the kinds is known" apart, while a list that is given but
empty counts as not given.

## Main definitions

* `UpdateKind.IsMisspelt text`: a text that is no name of a kind
* `ConditionDefinition.namedRange? d text`: the range for a dependency that a text names
* `ConditionDefinition.Yields c d securityOnly ranges`: what a definition has a condition ignore

## Main results

* `oneOrMany_text`: a text alone is as good as the list of it
* `IgnoreCondition.withKindNames_of_ne_nil`: names always leave a list of kinds
* `Range.render_ne_allVersions_of_ofKind`: no kind of update is all versions
* `ConditionDefinition.exists_yields_of_read?`: the condition of a definition, case by case
-/

namespace UpdatePlanner

open Readable

/-! ## Spellings of a list -/

theorem oneOrMany_list (texts : List String) :
    oneOrMany (Datum.list (texts.map .text)) = some texts := by
  have htexts : (texts.map Datum.text).mapM (text (m := Option)) = some texts := by
    induction texts with
    | nil => rfl
    | cons t ts ih => rw [List.map_cons, List.mapM_cons, ih]; rfl
  have hread : oneOrMany (Datum.list (texts.map .text)) =
      Fallible.ofOption ((texts.map Datum.text).mapM text) := rfl
  rw [hread, htexts]
  rfl

/-- **A text alone is as good as the list of it.** -/
theorem oneOrMany_text (t : String) :
    oneOrMany (Datum.text t) = oneOrMany (Datum.list [.text t]) :=
  (oneOrMany_list [t]).symm

/-! ## Names of kinds -/

namespace UpdateKind

/-- A text that is no name of a kind, neither in full nor in short. -/
def IsMisspelt (text : String) : Prop :=
  ∀ k : UpdateKind, k.id ≠ String.ofList (Text.trim text.toList) ∧
    k.shortName ≠ String.ofList (Text.trim text.toList)

theorem read?_eq_none_iff {text : String} : read? text = none ↔ IsMisspelt text := by
  have hall : ∀ k : UpdateKind, k ∈ all := by
    intro k
    cases k <;> decide
  unfold read? IsMisspelt
  simp only [List.find?_eq_none, Bool.or_eq_true, beq_iff_eq, not_or]
  constructor
  · intro h k
    exact h k (hall k)
  · intro h k _
    exact h k

end UpdateKind

/-! ## Ranges of kinds -/

namespace Range

open Version

variable {kind : UpdateKind} {version : String} {r : Range}

/-- A range that goes no further than the next line ends somewhere. -/
theorem exists_upper_of_ofKind (h : ofKind kind version .nextLine = some r) :
    ∃ upper, r.upper = some upper := by
  cases kind with
  | patch =>
    obtain ⟨-, upper, -, hr⟩ := patch_eq_some_iff.mp h
    exact ⟨upper, hr⟩
  | minor =>
    obtain ⟨-, upper, -, hr⟩ := minor_eq_some_iff.mp h
    exact ⟨upper, hr⟩
  | major =>
    obtain ⟨-, -, upper, -, -, hr⟩ := major_nextLine_eq_some_iff.mp h
    exact ⟨upper, hr⟩

/-- **No kind of update is all versions**: its range is written with an upper end. -/
theorem render_ne_allVersions_of_ofKind (h : ofKind kind version .nextLine = some r) :
    r.render ≠ allVersions := by
  obtain ⟨upper, hupper⟩ := exists_upper_of_ofKind h
  have hcomma : ',' ∈ r.render.toList := by simp [toList_render, hupper]
  have hnone : ',' ∉ allVersions.toList := by decide
  intro heq
  exact hnone (heq ▸ hcomma)

end Range

/-! ## Conditions with names of kinds -/

/-- **Names always leave a list of kinds**, the list of those that are known, even if there are
none. -/
theorem IgnoreCondition.withKindNames_of_ne_nil (c : IgnoreCondition) {names : List String}
    (h : names ≠ []) :
    c.withKindNames names = { c with kinds := some (names.filterMap UpdateKind.read?) } := by
  have hnames : names.isEmpty = false := List.isEmpty_eq_false_iff.mpr h
  unfold withKindNames withKinds
  cases hkinds : names.filterMap UpdateKind.read? <;> simp [hnames]

namespace ConditionDefinition

/-- A list that is not there, or has nothing in it. -/
def IsAbsent (texts : Option (List String)) : Prop :=
  texts = none ∨ texts = some []

theorem nonempty?_eq_none_iff {texts : Option (List String)} :
    nonempty? texts = none ↔ IsAbsent texts := by
  rcases texts with _ | _ | _ <;> simp [nonempty?, IsAbsent]

theorem nonempty?_of_ne_nil {texts : List String} (h : texts ≠ []) :
    nonempty? (some texts) = some texts := by
  simp [nonempty?, h]

/-- The parts of the condition that is defined for the names of a pattern. -/
theorem withPattern_eq (c : ConditionDefinition) (name : NamePattern) :
    c.withPattern name = ⟨name, nonempty? c.versions,
      (nonempty? c.kindNames).map (List.filterMap UpdateKind.read?), c.forSecurity, .nextLine⟩ := by
  have hkinds : ∀ names, nonempty? c.kindNames = some names → names ≠ [] := by
    intro names h hnil
    obtain ⟨-, hne⟩ := Option.filter_eq_some_iff.mp h
    simp [hnil] at hne
  unfold withPattern
  cases hn : nonempty? c.kindNames with
  | none => cases nonempty? c.versions <;> rfl
  | some names =>
    simp only [Option.elim_some, IgnoreCondition.withKindNames_of_ne_nil _ (hkinds names hn)]
    cases nonempty? c.versions <;> rfl

/-- The range above the version in use that a text names: the text is to name a kind, and the
version to have a range of that kind. -/
def namedRange? (d : Dependency) (text : String) : Option String := do
  let kind ← UpdateKind.read? text
  let version ← d.version
  (Range.ofKind kind version .nextLine).map Range.render

/-- Where every name is misspelt, or there is no version in use, no range is named. -/
theorem filterMap_namedRange?_eq_nil {d : Dependency} {names : List String}
    (h : (∀ text ∈ names, UpdateKind.IsMisspelt text) ∨ d.version = none) :
    names.filterMap (namedRange? d) = [] := by
  apply List.filterMap_eq_nil_iff.mpr
  intro text htext
  rcases h with hnames | hversion
  · simp [namedRange?, UpdateKind.read?_eq_none_iff.mpr (hnames text htext)]
  · simp [namedRange?, hversion]

theorem ne_allVersions_of_namedRange? {d : Dependency} {text range : String}
    (h : namedRange? d text = some range) : range ≠ Range.allVersions := by
  simp only [namedRange?, Option.bind_eq_bind, Option.bind_eq_some_iff,
    Option.map_eq_some_iff] at h
  obtain ⟨_, -, _, -, r, hr, rfl⟩ := h
  exact Range.render_ne_allVersions_of_ofKind hr

/-- The ranges of the known kinds are those that their names name. -/
theorem kindRanges_filterMap_read? {d : Dependency} {version : String}
    (h : d.version = some version) (names : List String) :
    IgnoreCondition.kindRanges (names.filterMap UpdateKind.read?) version .nextLine =
      firstOccurrences (names.filterMap (namedRange? d)) := by
  have hrange : (fun text => (UpdateKind.read? text).bind fun kind =>
      (Range.ofKind kind version .nextLine).map Range.render) = namedRange? d := by
    funext text
    simp only [namedRange?, h, Option.bind_some, Option.bind_eq_bind]
  rw [IgnoreCondition.kindRanges, eraseDups_eq_firstOccurrences, List.filterMap_filterMap, hrange]

/-! ## What is ignored -/

/-- What a definition has its condition ignore for a dependency. -/
structure Yields (c : ConditionDefinition) (d : Dependency) (securityOnly : Bool)
    (ranges : List String) : Prop where
  given : ∀ versions, c.versions = some versions → versions ≠ [] → ranges = versions
  exempt : IsAbsent c.versions → securityOnly = true → c.forSecurity = false → ranges = []
  blanket : IsAbsent c.versions → (securityOnly = true → c.forSecurity = true) →
    (ranges = [Range.allVersions] ↔ IsAbsent c.kindNames)
  named : ∀ names, IsAbsent c.versions → (securityOnly = true → c.forSecurity = true) →
    c.kindNames = some names → names ≠ [] →
      ranges = firstOccurrences (names.filterMap (namedRange? d))
  bounded : ∀ names, IsAbsent c.versions → c.kindNames = some names → names ≠ [] →
    Range.allVersions ∉ ranges
  nothing : ∀ names, IsAbsent c.versions → c.kindNames = some names → names ≠ [] →
    (∀ text ∈ names, UpdateKind.IsMisspelt text) ∨ d.version = none → ranges = []

section Pattern

variable (c : ConditionDefinition) (name : NamePattern) (d : Dependency) (securityOnly : Bool)

theorem ignored_withPattern_of_versions {versions : List String} (h : c.versions = some versions)
    (hne : versions ≠ []) : (c.withPattern name).ignored d securityOnly = versions := by
  rw [withPattern_eq, h, nonempty?_of_ne_nil hne]
  rfl

variable (habsent : IsAbsent c.versions)
include habsent

/-- What is ignored without given ranges. -/
theorem ignored_withPattern_of_isAbsent :
    (c.withPattern name).ignored d securityOnly =
      if securityOnly && !c.forSecurity then []
      else
        match nonempty? c.kindNames with
        | none => [Range.allVersions]
        | some names => firstOccurrences (names.filterMap (namedRange? d)) := by
  rw [withPattern_eq, nonempty?_eq_none_iff.mpr habsent, IgnoreCondition.ignored]
  refine if_congr Iff.rfl rfl ?_
  cases nonempty? c.kindNames with
  | none => rfl
  | some names =>
    cases hversion : d.version with
    | none =>
      dsimp only
      rw [filterMap_namedRange?_eq_nil (.inr hversion)]
      rfl
    | some version => exact kindRanges_filterMap_read? hversion names

variable {names : List String} (hkinds : c.kindNames = some names) (hne : names ≠ [])
include hkinds hne

/-- What is ignored where names of kinds are given, however they are spelt. -/
theorem ignored_withPattern_of_kindNames :
    (c.withPattern name).ignored d securityOnly =
      if securityOnly && !c.forSecurity then []
      else firstOccurrences (names.filterMap (namedRange? d)) := by
  rw [ignored_withPattern_of_isAbsent c name d securityOnly habsent, hkinds,
    nonempty?_of_ne_nil hne]

theorem allVersions_not_mem_ignored_withPattern :
    Range.allVersions ∉ (c.withPattern name).ignored d securityOnly := by
  rw [ignored_withPattern_of_kindNames c name d securityOnly habsent hkinds hne]
  split
  · exact List.not_mem_nil
  · rw [mem_firstOccurrences, List.mem_filterMap]
    rintro ⟨text, -, hrange⟩
    exact ne_allVersions_of_namedRange? hrange rfl

end Pattern

theorem yields_withPattern (c : ConditionDefinition) (name : NamePattern) (d : Dependency)
    (securityOnly : Bool) :
    c.Yields d securityOnly ((c.withPattern name).ignored d securityOnly) := by
  refine ⟨?given, ?exempt, ?blanket, ?named, ?bounded, ?nothing⟩
  case given =>
    intro versions hversions hne
    exact ignored_withPattern_of_versions c name d securityOnly hversions hne
  case exempt =>
    intro habsent hsecurity hexempt
    rw [ignored_withPattern_of_isAbsent c name d securityOnly habsent, hsecurity, hexempt]
    rfl
  case blanket =>
    intro habsent hcounts
    constructor
    · intro hall
      by_contra hkinds
      -- Otherwise there are names, and then the range of all versions is not ignored.
      obtain ⟨hnone, hnil⟩ := not_or.mp hkinds
      obtain ⟨names, hsome⟩ := Option.ne_none_iff_exists'.mp hnone
      have hne : names ≠ [] := by
        rintro rfl
        exact hnil hsome
      apply allVersions_not_mem_ignored_withPattern c name d securityOnly habsent hsome hne
      rw [hall]
      exact List.mem_singleton_self _
    · intro hkinds
      rw [ignored_withPattern_of_isAbsent c name d securityOnly habsent,
        nonempty?_eq_none_iff.mpr hkinds, if_neg (by simpa using hcounts)]
  case named =>
    intro names habsent hcounts hkinds hne
    rw [ignored_withPattern_of_kindNames c name d securityOnly habsent hkinds hne,
      if_neg (by simpa using hcounts)]
  case bounded =>
    intro names habsent hkinds hne
    exact allVersions_not_mem_ignored_withPattern c name d securityOnly habsent hkinds hne
  case nothing =>
    intro names habsent hkinds hne hnothing
    rw [ignored_withPattern_of_kindNames c name d securityOnly habsent hkinds hne,
      filterMap_namedRange?_eq_nil hnothing]
    exact ite_self []

/-- **The condition of a definition, case by case.** A definition whose pattern can be read has a
condition, and what that ignores for a dependency is what the lists of the definition say: all
versions where no kinds are given, and never where some are, however they are spelt. -/
theorem exists_yields_of_read? {c : ConditionDefinition} {name : NamePattern}
    (hname : NamePattern.read? c.pattern = .ok name) :
    ∃ condition, c.condition? = .ok condition ∧ condition.name = name ∧
      ∀ d securityOnly, c.Yields d securityOnly (condition.ignored d securityOnly) := by
  refine ⟨c.withPattern name, ?_, ?_, c.yields_withPattern name⟩
  · rw [condition?, hname]
    rfl
  · rw [withPattern_eq]

/-- A definition for all names with a kind in short, misspelt, in full and again in short. -/
def misspeltDefinition : ConditionDefinition :=
  ⟨"*", none, some ["minor", "Minor", " version-update:semver-patch", "minor"], false⟩

theorem exists_yields_of_read?_misspeltDefinition :
    NamePattern.read? misspeltDefinition.pattern = .ok ⟨"*", .gap⟩ ∧
      misspeltDefinition.condition?.map
          (fun c => c.ignored ⟨"rails", some "7.0.8", .bundler, []⟩ false) =
        .ok [">= 7.1.a, < 8", ">= 7.0.8.1.a, < 7.1"] ∧
      ∃ condition, misspeltDefinition.condition? = .ok condition ∧ condition.name = ⟨"*", .gap⟩ ∧
        ∀ d securityOnly,
          misspeltDefinition.Yields d securityOnly (condition.ignored d securityOnly) := by
  have hname : NamePattern.read? misspeltDefinition.pattern = .ok ⟨"*", .gap⟩ := by
    with_unfolding_all decide
  have hranges : misspeltDefinition.condition?.map
      (fun c => c.ignored ⟨"rails", some "7.0.8", .bundler, []⟩ false) =
        .ok [">= 7.1.a, < 8", ">= 7.0.8.1.a, < 7.1"] := by
    with_unfolding_all decide
  exact ⟨hname, hranges, exists_yields_of_read? hname⟩

end ConditionDefinition

end UpdatePlanner
