import Std.Time.DateTime.Timestamp
import Wiring.CommandLine.Program

/-!
# The program on a disk

The surroundings of the program: the files of the system, the clock, and random
identifiers.
-/

namespace Wiring

/-- The number of a system error, which is reported with either sign. -/
def systemErrorNumber (code : UInt32) : UInt32 := min code (0 - code)

/-- The fault of a file operation that the system reports. -/
def FileFault.ofError : IO.Error → FileFault
  | .noFileOrDirectory .. => .missing
  | .alreadyExists .. => .present
  | .invalidArgument _ code details =>
    if systemErrorNumber code = 36 then .nameTooLong else .other details
  | .inappropriateType _ code details =>
    if systemErrorNumber code = 20 then .notDirectory
    else if systemErrorNumber code = 21 then .isDirectory
    else .other details
  | error => .other (toString error)

/-- Do something with files that may fail. -/
def tryFile {α : Type} (action : IO α) : IO (Except FileFault α) := do
  match ← action.toBaseIO with
  | .ok a => return .ok a
  | .error error => return .error (.ofError error)

/-- The names in a directory of the system. -/
def namesOnDisk (path : String) : IO (List String) := do
  let here ← IO.currentDir
  return (← (here / path).readDir).toList.map fun entry => entry.fileName

instance : Files IO where
  read path := tryFile (IO.FS.readFile path)
  isThere path := do
    let here ← IO.currentDir
    (here / path).pathExists
  names path := tryFile (namesOnDisk path)
  makeDirectories path := tryFile (IO.FS.createDirAll path)
  write path content := tryFile (IO.FS.writeFile path content)
  move source target := tryFile (IO.FS.rename source target)

instance : Stamps IO where
  now := do
    let time ← Std.Time.Timestamp.now
    let nanos := time.toNanosecondsSinceUnixEpoch.val.toNat
    return .ofUnix (nanos / 1000000000) (nanos % 1000000000)
  fresh := do
    let bytes ← IO.getRandomBytes 16
    return .random fun i => (bytes.toList[i]?.getD 0).toNat

/-- The variables that the program looks at. -/
def environmentVariables : List String :=
  (CommandLine.globalSwitches ++ CommandLine.CommandName.switches .start).filterMap
    CommandLine.Switch.fallback?

end Wiring

open Wiring in
/-- Run the program. -/
def main (words : List String) : IO UInt32 := do
  let given ← environmentVariables.filterMapM fun name => do
    return (← IO.getEnv name).map fun value => (name, value)
  let input : IO String := do (← IO.getStdin).readToEnd
  let ending ← CommandLine.program input (fun name => given.lookup name) words
  IO.print ending.printed.output
  IO.eprint ending.printed.errors
  return ending.code.toUInt32
