import Wiring.Model.Store
import Wiring.Text.Cut
import Wiring.Text.Numeral

/-!
# The spool

A spool keeps the model of a file and takes scripts for somebody else to apply: each
goes to a file of its own in the spool directory, which is made for the first one.
The names of the files begin with the time and a number, so that they sort in the
order of submission.  A script that has been written counts as accepted.
-/

namespace Wiring

open Wiring.Text

/-- The ending of the names of script files. -/
def scriptEnding : String := "kevs"

/-- Whether a file name has the ending of script files, behind something else. -/
def isScriptName (name : String) : Bool :=
  match cutLast '.' name.toList with
  | none => false
  | some (stem, ending) => stem ≠ [] && ending = scriptEnding.toList

/-- A spool. -/
structure Spool where
  modelPath : String
  directory : String
  model : Model
  version : Nat := 0
  sequence : Nat := 0

namespace Spool

variable {m : Type → Type} [Monad m] [Files m]

/-- Open a spool on a model file and a directory. -/
def openOn (modelPath directory : String) : m (Except Failure Spool) := do
  match ← Model.load modelPath with
  | .error failure => return .error failure
  | .ok model => return .ok { modelPath, directory, model }

/-- Read the model again.  When that fails, the old one stays. -/
def reload (spool : Spool) : m (Except Failure Spool) := do
  match ← Model.load spool.modelPath with
  | .error failure => return .error failure
  | .ok model => return .ok { spool with model, version := spool.version + 1 }

/-- The paths of the scripts in the spool, the oldest first. -/
def waiting (spool : Spool) : m (Except Failure (List String)) := do
  if !(← Files.isThere spool.directory) then return .ok []
  match ← Files.names spool.directory with
  | .error fault => return .error (.file spool.directory fault)
  | .ok names =>
    let scripts := (names.filter isScriptName).mergeSort fun a b => a ≤ b
    return .ok (scripts.map (Files.inside spool.directory))

variable [Stamps m]

/-- The name of the next script file, without its ending. -/
def nextStem (spool : Spool) : m String := do
  let time ← Stamps.now
  let id ← Stamps.fresh
  return time.nameText ++ "-" ++ String.ofList (padded 6 spool.sequence) ++ "-" ++ id.bareText

/-- Write a script to a file of its own, beside its final path first. -/
def write (spool : Spool) (script : String) : m (Except Failure Unit) := do
  let stem ← spool.nextStem
  let target := Files.inside spool.directory (stem ++ "." ++ scriptEnding)
  let beside := Files.inside spool.directory (stem ++ ".tmp")
  match ← Files.makeDirectories spool.directory with
  | .error fault => return .error (.file spool.directory fault)
  | .ok _ =>
    match ← Files.write beside script with
    | .error fault => return .error (.file beside fault)
    | .ok _ =>
      match ← Files.move beside target with
      | .error fault => return .error (.file target fault)
      | .ok _ => return .ok ()

/-- Take a script, and tell whether it was accepted. -/
def submit (spool : Spool) (script : String) : m (Bool × Spool) := do
  let written ← spool.write script
  return (written.toOption.isSome, { spool with sequence := spool.sequence + 1 })

end Spool

end Wiring
