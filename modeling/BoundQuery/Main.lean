import BoundQuery.CommandLine.Task

/-!
# The program

Reads the arguments and the files that they name, and prints, saves and exits as
`CommandLine.task` says.
-/

namespace BoundQuery

/-- A reason with the system's number for it; some calls give the number negated. -/
def numberedReason (reason : String) (number : UInt32) : String :=
  let size := if number.toNat < twoTo 31 then number.toNat else twoTo 32 - number.toNat
  reason ++ " (os error " ++ toString size ++ ")"

/-- The system's reason for a failure. -/
def systemReason : IO.Error → String
  | .noFileOrDirectory _ number _ | .noSuchThing _ number _ =>
      numberedReason "No such file or directory" number
  | .permissionDenied _ number _ => numberedReason "Permission denied" number
  | .inappropriateType _ number _ => numberedReason "Is a directory" number
  | other => toString other

/-- The text of a file, or the reason why it cannot be read. -/
def readText (path : String) : IO (Except String String) := do
  try
    match String.fromUTF8? (← IO.FS.readBinFile path) with
    | some text => return .ok text
    | none => return .error "stream did not contain valid UTF-8"
  catch problem => return .error (systemReason problem)

/-- Saves a text in a file, which is created or emptied first. -/
def saveText (path content : String) : IO (Except SaveError Unit) := do
  let opened ← (IO.FS.Handle.mk path .write).toBaseIO
  match opened with
  | .error problem => return .error (.create (systemReason problem))
  | .ok file =>
      match ← (do file.putStr content; file.flush : IO Unit).toBaseIO with
      | .error problem => return .error (.write (systemReason problem))
      | .ok () => return .ok ()

/-- Prints an answer and gives its exit code. -/
def Response.give (response : Response) : IO UInt32 := do
  (← IO.getStdout).putStr response.output
  (← IO.getStderr).putStr response.errors
  return UInt32.ofNat response.exitCode

/-- Carries out a command line. -/
def CommandLine.run (line : CommandLine) : IO UInt32 := do
  let texts ← line.inputs.mapM fun path => return (path, ← readText path)
  let files : Files := fun path => (texts.lookup path).getD (.error "")
  let terminal ← (← IO.getStderr).isTty
  match line.task (line.colors terminal) files with
  | .answer response => response.give
  | .save path content reply => (reply (← saveText path content)).give

end BoundQuery

def main (arguments : List String) : IO UInt32 :=
  match BoundQuery.CommandLine.parse arguments with
  | .ok line => line.run
  | .error stop => stop.response.give
