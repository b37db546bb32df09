import UpdatePlanner.Failure

/-!
# Package managers

Every package manager labels the dependencies of a manifest in its own way: groups, sections,
scopes, environments.  From the labels it follows whether a dependency is needed in production.

## Main definitions

* `PackageManager` — the supported package managers;
* `PackageManager.id`, `PackageManager.title` — their names in job files and in reports;
* `PackageManager.isProduction` — whether labels mark a production dependency.

## Main results

* `PackageManager.ofId?_id` — the identifier determines the package manager.
-/

namespace UpdatePlanner

/-- The supported package managers. -/
inductive PackageManager where
  | bundler
  | npmAndYarn
  | composer
  | cargo
  | pip
  | maven
  | gradle
  | goModules
  | hex
  | nuget
  deriving DecidableEq, Repr

namespace PackageManager

def id : PackageManager → String
  | bundler => "bundler"
  | npmAndYarn => "npm_and_yarn"
  | composer => "composer"
  | cargo => "cargo"
  | pip => "pip"
  | maven => "maven"
  | gradle => "gradle"
  | goModules => "go_modules"
  | hex => "hex"
  | nuget => "nuget"

def title : PackageManager → String
  | bundler => "Bundler"
  | npmAndYarn => "npm/Yarn"
  | composer => "Composer"
  | cargo => "Cargo"
  | pip => "pip"
  | maven => "Maven"
  | gradle => "Gradle"
  | goModules => "Go modules"
  | hex => "Hex"
  | nuget => "NuGet"

/-- Every package manager, in the order in which reports list them. -/
def all : List PackageManager :=
  [bundler, npmAndYarn, composer, cargo, pip, maven, gradle, goModules, hex, nuget]

theorem mem_all (m : PackageManager) : m ∈ all := by cases m <;> decide

theorem nodup_all : all.Nodup := by decide

def ofId? (id : String) : Option PackageManager :=
  all.find? fun m => m.id == id

/-- The package manager with an identifier, or the failure to report. -/
def read? (id : String) : Except ConfigFailure PackageManager :=
  match ofId? id with
  | some m => .ok m
  | none => .error (.unknownManager id)

@[simp] theorem ofId?_id (m : PackageManager) : ofId? m.id = some m := by
  cases m <;> decide

/-- Whether some label is one of the given ones. -/
def hasLabel (labels wanted : List String) : Bool :=
  labels.any fun l => wanted.contains l

/-- Whether a text occurs in another one. -/
def occursIn (needle : List Char) : List Char → Bool
  | [] => needle.isEmpty
  | c :: cs => needle.isPrefixOf (c :: cs) || occursIn needle cs

/-- Whether a dependency with these labels is needed in production.  No labels mean production;
for Maven and Gradle only the scope `test` alone does not, and for Go and NuGet all labels do. -/
def isProduction (m : PackageManager) (labels : List String) : Bool :=
  match m with
  | bundler =>
    labels.isEmpty || hasLabel labels ["runtime", "default"] ||
      labels.any fun l => occursIn ":default".toList l.toList
  | npmAndYarn => labels.isEmpty || hasLabel labels ["dependencies", "optionalDependencies"]
  | composer => labels.isEmpty || hasLabel labels ["runtime"]
  | cargo => labels.isEmpty || hasLabel labels ["dependencies"]
  | pip => labels.isEmpty || hasLabel labels ["default", "install_requires", "dependencies"]
  | maven | gradle => labels != ["test"]
  | hex => labels.isEmpty || hasLabel labels ["prod"]
  | goModules | nuget => true

end PackageManager

end UpdatePlanner
