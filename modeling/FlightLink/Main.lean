import FlightLink.Command.Run
import Std.Time.Format

/-!
# The program

Reads the files that the command line names, runs it and prints what the run gives: data to
standard output, log lines and complaints to standard error.
-/

namespace FlightLink

/-- The fault that an error of the operating system stands for. -/
def Fault.ofError : IO.Error → Fault
  | .noFileOrDirectory .. => .notFound
  | .inappropriateType _ 20 _ => .notADirectory
  | .inappropriateType _ 21 _ => .isADirectory
  | .invalidArgument _ 36 _ => .nameTooLong
  | .interrupted _ code details => ⟨.interrupted, s!"{details} (os error {code.toNat})"⟩
  | .resourceVanished code details => ⟨.brokenPipe, s!"{details} (os error {code.toNat})"⟩
  | .timeExpired code details => ⟨.timedOut, s!"{details} (os error {code.toNat})"⟩
  | .permissionDenied _ code details => ⟨.other, s!"{details} (os error {code.toNat})"⟩
  | e => ⟨.other, toString e⟩

/-- What was opened: a file with its contents, or else a directory, which cannot be read. -/
def contentsOf (handle : IO.FS.Handle) : IO Entry := do
  try
    return .file (← handle.readBinToEnd).toList
  catch _ =>
    return .directory

/-- What a path leads to. -/
def visit (path : String) : IO (Except Fault Entry) := do
  try
    return .ok (← contentsOf (← IO.FS.Handle.mk path .read))
  catch e =>
    return .error (.ofError e)

/-- What the paths of a command line lead to. -/
def filesOf (arguments : List String) : IO Files := do
  let paths := match Request.ofArguments arguments with
    | .ok request => request.paths
    | .error _ => []
  let found ← paths.mapM fun path => return (path, ← visit path)
  return fun path => (found.lookup path).getD (.error .notFound)

/-- The present time in universal time, to the millisecond. -/
def currentStamp : IO String := do
  let now := Std.Time.DateTime.ofTimestampWithZone (← Std.Time.Timestamp.now) .UTC
  return now.format "uuuu-MM-dd'T'HH:mm:ss.SSS'Z'"

end FlightLink

/-- Runs a command line. -/
def main (arguments : List String) : IO UInt32 := do
  let stamp ← FlightLink.currentStamp
  let outcome := FlightLink.run stamp (← FlightLink.filesOf arguments) arguments
  for line in outcome.shownLog do
    IO.eprintln s!"{stamp} {line}"
  let output ← IO.getStdout
  output.write ⟨outcome.output.toArray⟩
  output.flush
  if let some complaint := outcome.complaint then
    IO.eprintln complaint.render
  return UInt32.ofNat outcome.exitCode
