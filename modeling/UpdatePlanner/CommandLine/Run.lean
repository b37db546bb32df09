import UpdatePlanner.CommandLine.Arguments
import UpdatePlanner.Group.Text
import UpdatePlanner.Plan.Planner
import UpdatePlanner.Report.Basic

/-!
# Running a command line

A run reads a job file and writes a report, or the groups of the job.  Its exit code is 0 if all
went well, 1 if there is no report, and 2 if some dependency could not be planned for or the
command line is not followed.  A pattern that cannot be searched for has an exit code of its own.

## Main definitions

* `Outcome` — what a run writes, and its exit code;
* `FileFault` — why a file has no text;
* `Arguments.run` — what a command line does with the job file.
-/

namespace UpdatePlanner

/-- What a run writes, and its exit code. -/
structure Outcome where
  exit : Nat
  output : String
  errors : String
  deriving DecidableEq, Repr

/-- Why a file has no text. -/
inductive FileFault where
  | missing
  | denied
  | notDirectory
  | directory
  | nameTooLong
  | notText
  | other (code : Nat)
  deriving DecidableEq, Repr

def FileFault.message : FileFault → String
  | missing => "No such file or directory (os error 2)"
  | denied => "Permission denied (os error 13)"
  | notDirectory => "Not a directory (os error 20)"
  | directory => "Is a directory (os error 21)"
  | nameTooLong => "File name too long (os error 36)"
  | notText => "stream did not contain valid UTF-8"
  | other code => "Unknown error " ++ toString code ++ " (os error " ++ toString code ++ ")"

/-- The text of a file with the given bytes. -/
def FileFault.textOf? (bytes : ByteArray) : Except FileFault String :=
  match String.fromUTF8? bytes with
  | some text => .ok text
  | none => .error .notText

/-- The job that a file holds. -/
def Job.load? (path : String) (content : Except FileFault String) : Except ConfigFailure Job :=
  match content with
  | .error fault => .error (.unreadable path fault.message)
  | .ok text =>
    match Job.ofText? text with
    | .ok job => .ok job
    | .error fault => .error (.malformed path fault.message)

namespace Arguments

/-- The exit code where something went wrong. -/
def exitCode : Failure → Nat
  | .policy (.unsearchablePattern _) => 101
  | _ => 1

/-- The outcome where something went wrong. -/
def failed (cause : Failure) : Outcome :=
  ⟨exitCode cause, "", "Error: " ++ cause.message ++ "\n"⟩

def reportOptions (a : Arguments) (color : Bool) : ReportOptions :=
  .ofSwitches a.json a.verbose a.quiet color

def planOptions (a : Arguments) (now : Instant) : PlanOptions :=
  ⟨a.securityOnly, a.minAge, now⟩

/-- What the arguments do with a job. -/
def runJob (a : Arguments) (now : Instant) (color : Bool) (job : Job) : Outcome :=
  let job := if a.experimentalRules then job.withExperiment Experiments.groupRules true else job
  if a.renderGroups then
    match job.groups? with
    | .ok groups => ⟨0, (GroupDocument.ofGroups groups).render, ""⟩
    | .error cause => failed (.policy cause)
  else
    match job.plan? (a.planOptions now) with
    | .ok plan => ⟨if plan.failures.isEmpty then 0 else 2, plan.report (a.reportOptions color), ""⟩
    | .error cause => failed (.policy cause)

/-- What the arguments do with the content of the job file. -/
def run (a : Arguments) (now : Instant) (color : Bool) (content : Except FileFault String) :
    Outcome :=
  match Job.load? a.job content with
  | .ok job => a.runJob now color job
  | .error cause => failed (.config cause)

end Arguments

namespace Refusal

/-- The name and the version of the program. -/
def versionText : String := "update-policy 0.1.0\n"

/-- How the program is called. -/
def usage : String := "Usage: update-policy [OPTIONS] [JOB]\n"

/-- What the program does and what it can be asked for. -/
def helpText : String :=
  "Evaluates ignore conditions and dependency groups for a dependency update job\n\n" ++ usage ++
    "\nArguments:\n" ++
    "  [JOB]  Job file (YAML) [default: job.yml]\n" ++
    "\nOptions:\n" ++
    "      --security-only       Only security updates are being made (forces ignore-everything" ++
    " for conditions without explicit versions)\n" ++
    "      --experimental-rules  Enable the experimental group rules (dependency-type," ++
    " highest-semver-allowed)\n" ++
    "      --min-age <MIN_AGE>   Only propose versions released at least this long ago (e.g.," ++
    " 2w, 10d, 1m)\n" ++
    "      --render-groups       Print each dependency group as a configuration snippet and exit\n" ++
    "      --json                Output results in JSON format\n" ++
    "      --verbose             Enable verbose output\n" ++
    "  -q, --quiet               Enable quiet mode - minimal output\n" ++
    "  -h, --help                Print help\n" ++
    "  -V, --version             Print version\n"

/-- The complaint about a command line that is not followed. -/
def complaint : Refusal → String
  | unknownArgument argument => "unexpected argument '" ++ argument ++ "' found"
  | missingValue name => "a value is required for '" ++ name ++ "' but none was supplied"
  | badValue name value => "invalid value '" ++ value ++ "' for '" ++ name ++ "'"
  | repeated name => "the argument '" ++ name ++ "' cannot be used multiple times"
  | unexpectedValue name value => "unexpected value '" ++ value ++ "' for '" ++ name ++ "' found"
  | help => ""
  | version => ""

/-- What is done about a command line that is not followed. -/
def outcome : Refusal → Outcome
  | help => ⟨0, helpText, ""⟩
  | version => ⟨0, versionText, ""⟩
  | r => ⟨2, "", "error: " ++ r.complaint ++ "\n\n" ++ usage⟩

end Refusal

end UpdatePlanner
