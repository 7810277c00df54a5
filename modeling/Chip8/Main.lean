import Chip8.Host.FileTree
import Chip8.Host.Launch

/-!
The command. It opens the file of the program, launches, and prints what comes of it. There is no
window system here, so that a launch that would open a window ends with a failure.
-/

namespace Chip8

/-- The number by which the operating system knows a failure. -/
def systemErrorNumber? : IO.Error → Option UInt32
  | .noFileOrDirectory _ number _ | .inappropriateType _ number _ | .permissionDenied _ number _
  | .invalidArgument _ number _ | .resourceExhausted _ number _ | .noSuchThing _ number _ =>
    some number
  | .hardwareFault number _ | .otherError number _ => some number
  | _ => none

/-- The text of a failure that the operating system reports. -/
def systemErrorText (error : IO.Error) : String :=
  match systemErrorNumber? error with
  | some 2 => FileError.notFound.text
  | some 13 => "Permission denied (os error 13)"
  | some 20 => FileError.notADirectory.text
  | some 21 => FileError.isADirectory.text
  | some 36 => FileError.nameTooLong.text
  | some 40 => "Too many levels of symbolic links (os error 40)"
  | _ => error.toString

/-- Opens the file at a path and reads all of it. -/
def openFile (path : String) : IO (Except String Source) := do
  match ← (IO.FS.Handle.mk path .read).toBaseIO with
  | .error error => return .error (systemErrorText error)
  | .ok handle =>
    match ← handle.readBinToEnd.toBaseIO with
    | .ok bytes => return .ok [.bytes bytes.toList]
    | .error error => return .ok [.failed (systemErrorText error)]

/-- A source of random numbers that nobody can predict. -/
def unpredictableSource : IO RandomSource := do
  let bytes ← IO.getRandomBytes 8
  return .ofSeed (UInt64.ofNat (bytes.toList.foldl (fun n byte => 256 * n + byte.toNat) 0))

/-- Prints a report and gives its exit code. -/
def Report.finish (report : Report) : IO UInt32 := do
  (← IO.getStdout).putStr report.stdout
  (← IO.getStderr).putStr report.stderr
  return report.code.toUInt32

/-- Runs the command with its arguments. -/
def runCommand (arguments : List String) : IO UInt32 := do
  match Options.parse arguments with
  | .error error => error.report.finish
  | .ok options =>
    let opened ← openFile options.program
    match options.launch (← unpredictableSource) opened with
    | .report report => report.finish
    | .play _ _ => (Report.failure "no display is available" []).finish

end Chip8

def main (arguments : List String) : IO UInt32 :=
  Chip8.runCommand arguments
