import UpdatePlanner.Calendar.Age

/-!
# Command line arguments

Arguments are read from left to right.  A switch may be given once; the minimum age takes the
next argument, or what stands behind an equals sign, as its value; one argument without a dash
names the job file.  Behind `--` nothing is a switch.  A value is checked only when the next
switch, the next file name or the end is reached, so that an unknown argument is reported first.

## Main definitions

* `Arguments` — what a command line asks for;
* `Refusal` — why a command line is not followed;
* `Arguments.read?` — the reading of a command line.
-/

namespace UpdatePlanner

/-- What a command line asks for. -/
structure Arguments where
  job : String
  securityOnly : Bool
  experimentalRules : Bool
  /-- How many seconds ago a version has to be released. -/
  minAge : Option Nat
  /-- Whether only the groups are to be written, as configuration text. -/
  renderGroups : Bool
  json : Bool
  verbose : Bool
  quiet : Bool
  deriving DecidableEq, Repr

/-- Why a command line is not followed. -/
inductive Refusal where
  | unknownArgument (argument : String)
  | missingValue (name : String)
  | badValue (name value : String)
  | repeated (name : String)
  /-- A switch that takes no value has one. -/
  | unexpectedValue (name value : String)
  | help
  | version
  deriving DecidableEq, Repr

namespace Arguments

/-- The switches without a value. -/
inductive Switch where
  | securityOnly
  | experimentalRules
  | renderGroups
  | json
  | verbose
  | quiet
  | help
  | version
  deriving DecidableEq, Repr

namespace Switch

def all : List Switch :=
  [securityOnly, experimentalRules, renderGroups, json, verbose, quiet, help, version]

def name : Switch → String
  | securityOnly => "security-only"
  | experimentalRules => "experimental-rules"
  | renderGroups => "render-groups"
  | json => "json"
  | verbose => "verbose"
  | quiet => "quiet"
  | help => "help"
  | version => "version"

def letter? : Switch → Option Char
  | quiet => some 'q'
  | help => some 'h'
  | version => some 'V'
  | _ => none

def ofName? (name : String) : Option Switch :=
  all.find? fun s => s.name == name

def ofLetter? (c : Char) : Option Switch :=
  all.find? fun s => s.letter? == some c

end Switch

/-- The name of the option with a value. -/
def minAgeName : String := "min-age"

/-- A value that has been given and not yet checked. -/
inductive Pending where
  | none
  /-- The minimum age; its value may still be missing. -/
  | minAge (value : Option String)
  | job (path : String)
  deriving DecidableEq, Repr

/-- A command line that has been read in part. -/
structure Reading where
  arguments : Arguments
  named : Bool
  pending : Pending
  deriving DecidableEq, Repr

namespace Reading

def start : Reading :=
  ⟨⟨"job.yml", false, false, none, false, false, false, false⟩, false, .none⟩

/-- Checks a minimum age and takes it over. -/
def setMinAge (r : Reading) (value : String) : Except Refusal Reading :=
  if r.arguments.minAge.isSome then .error (.repeated minAgeName)
  else
    match Age.read? value with
    | .ok seconds =>
      .ok { r with arguments := { r.arguments with minAge := some seconds }, pending := .none }
    | .error _ => .error (.badValue minAgeName value)

/-- Checks the value that is pending and takes it over. -/
def settle (r : Reading) : Except Refusal Reading :=
  match r.pending with
  | .none => .ok r
  | .minAge none => .error (.missingValue minAgeName)
  | .minAge (some value) => r.setMinAge value
  | .job path =>
    if path.isEmpty then .error (.missingValue "JOB")
    else .ok { r with arguments := { r.arguments with job := path }, pending := .none }

/-- Whether a switch has been given, and the arguments with the switch given. -/
def give (a : Arguments) : Switch → Bool × Arguments
  | .securityOnly => (a.securityOnly, { a with securityOnly := true })
  | .experimentalRules => (a.experimentalRules, { a with experimentalRules := true })
  | .renderGroups => (a.renderGroups, { a with renderGroups := true })
  | .json => (a.json, { a with json := true })
  | .verbose => (a.verbose, { a with verbose := true })
  | .quiet => (a.quiet, { a with quiet := true })
  | .help => (false, a)
  | .version => (false, a)

/-- Reads a switch without a value. -/
def readSwitch (r : Reading) (s : Switch) : Except Refusal Reading := do
  let r ← r.settle
  match s with
  | .help => throw .help
  | .version => throw .version
  | s =>
    let (given, arguments) := give r.arguments s
    if given then throw (.repeated s.name)
    return { r with arguments := arguments }

/-- Reads an argument that begins with two dashes, without them. -/
def readLong (r : Reading) (text : String) : Except Refusal Reading :=
  let name := String.ofList (text.toList.takeWhile (· ≠ '='))
  let value := (text.toList.dropWhile (· ≠ '=')).tail?.map String.ofList
  if name = minAgeName then do
    let r ← r.settle
    match value with
    | some value => r.setMinAge value
    | none => return { r with pending := .minAge none }
  else
    match Switch.ofName? name, value with
    | none, _ => .error (.unknownArgument ("--" ++ name))
    | some _, some value => .error (.unexpectedValue name value)
    | some s, none => r.readSwitch s

/-- Reads the letters of an argument that begins with one dash. -/
def readLetters (r : Reading) : List Char → Except Refusal Reading
  | [] => .ok r
  | c :: cs =>
    match Switch.ofLetter? c with
    | none => .error (.unknownArgument (String.ofList ['-', c]))
    | some s => do
      let r ← r.readSwitch s
      r.readLetters cs

/-- Reads an argument that is no switch: a value that is waited for, or the job file. -/
def readPlain (r : Reading) (text : String) (trailing : Bool) : Except Refusal Reading :=
  match r.pending, trailing with
  | .minAge none, false => .ok { r with pending := .minAge (some text) }
  | _, _ =>
    if r.named then .error (.unknownArgument text)
    else do
      let r ← r.settle
      return { r with named := true, pending := .job text }

/-- Reads the arguments; `trailing` says that a lone pair of dashes has been passed. -/
def readAll (trailing : Bool) (r : Reading) : List String → Except Refusal Reading
  | [] => r.settle
  | text :: texts => do
    if trailing then
      (← r.readPlain text true).readAll true texts
    else
      match text.toList with
      | ['-', '-'] => r.readAll true texts
      | '-' :: '-' :: cs => (← r.readLong (String.ofList cs)).readAll false texts
      | '-' :: c :: cs => (← r.readLetters (c :: cs)).readAll false texts
      | _ => (← r.readPlain text false).readAll false texts

end Reading

/-- What a command line asks for. -/
def read? (texts : List String) : Except Refusal Arguments := do
  return (← Reading.start.readAll false texts).arguments

end Arguments

end UpdatePlanner
