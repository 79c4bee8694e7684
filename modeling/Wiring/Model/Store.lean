import Wiring.Files
import Wiring.Model.Document
import Wiring.Text.Cut

/-!
# Models in files

A model is kept in a file in the form for people.  A file is replaced as a whole:
the new contents are written beside it first.
-/

namespace Wiring.Model

variable {m : Type → Type} [Monad m] [Files m]

/-- Read the model in a file. -/
def load (path : String) : m (Except Failure Model) := do
  match ← Files.read path with
  | .error fault => return .error (.file path fault)
  | .ok text => return Document.read text

/-- The path beside a file that its new contents are written to: the last part of
its name gives way to another one. -/
def besidePath (path : String) : String :=
  match Text.cutLast '.' path.toList with
  | none => path ++ ".json.tmp"
  | some (stem, ending) =>
    if '/' ∈ ending ∨ stem = [] ∨ stem.getLast? = some '/' then path ++ ".json.tmp"
    else String.ofList stem ++ ".json.tmp"

/-- Write a model to a file. -/
def save (path : String) (model : Model) : m (Except Failure Unit) := do
  let beside := besidePath path
  match ← Files.write beside (Document.pages model) with
  | .error fault => return .error (.file beside fault)
  | .ok _ =>
    match ← Files.move beside path with
    | .error fault => return .error (.file path fault)
    | .ok _ => return .ok ()

end Wiring.Model
