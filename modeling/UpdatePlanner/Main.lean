import Std.Time.DateTime.Timestamp
import UpdatePlanner.CommandLine.Run

/-!
# The program

Reads the command line and the job file, and writes what the run gives.
-/

namespace UpdatePlanner

/-- The fault with a code of the operating system, which may come with a minus sign. -/
def FileFault.ofCode (code : UInt32) : FileFault :=
  match min code.toNat (-code).toNat with
  | 2 => .missing
  | 13 => .denied
  | 20 => .notDirectory
  | 21 => .directory
  | 36 => .nameTooLong
  | n => .other n

/-- The fault that the operating system reports for a file. -/
def FileFault.ofError : IO.Error → FileFault
  | .noFileOrDirectory .. => .missing
  | .permissionDenied _ code _ | .inappropriateType _ code _ | .invalidArgument _ code _
  | .otherError code _ => .ofCode code
  | _ => .ofCode 5

def readJobFile (path : String) : IO (Except FileFault String) := do
  try
    return FileFault.textOf? (← IO.FS.readBinFile path)
  catch e =>
    return .error (FileFault.ofError e)

def presentTime : IO Instant := do
  let t ← Std.Time.Timestamp.now
  let nanos := t.toNanosecondsSinceUnixEpoch.val
  return ⟨nanos / Instant.nanosPerSecond, (nanos % Instant.nanosPerSecond).toNat⟩

/-- Follows a command line. -/
def follow (arguments : Arguments) : IO Outcome := do
  let content ← readJobFile arguments.job
  return arguments.run (← presentTime) (← (← IO.getStdout).isTty) content

end UpdatePlanner

open UpdatePlanner

/-- Runs the program; the result is its exit code. -/
def main (texts : List String) : IO UInt32 := do
  let outcome ← match Arguments.read? texts with
    | .ok arguments => follow arguments
    | .error refusal => pure refusal.outcome
  (← IO.getStdout).putStr outcome.output
  (← IO.getStdout).flush
  (← IO.getStderr).putStr outcome.errors
  return outcome.exit.toUInt32
