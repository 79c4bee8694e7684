import Wiring.Failure
import Wiring.Text.Cut

/-!
# Paths

Slashes part a path into steps.  A dot stays in the directory it is taken in, two
dots lead to the directory above, and any other step enters the entry of that name.
Between two slashes that follow each other there is no step.

The empty text is no path, and names and paths have a greatest length, counted in
bytes.
-/

namespace Wiring

/-- One step of a path. -/
inductive Step where
  | stay
  | up
  | enter (name : String)
deriving DecidableEq, Repr

/-- A path. -/
structure Path where
  /-- Whether it starts at the root; otherwise it starts where the work is done. -/
  isAbsolute : Bool
  steps : List Step
  /-- Whether it ends in a slash, so that it can only lead to a directory. -/
  endsInSlash : Bool
deriving DecidableEq, Repr

/-- The greatest number of bytes in a name. -/
def nameLimit : Nat := 255

/-- The number of bytes that a path stays below. -/
def pathLimit : Nat := 4096

namespace Path

/-- The step that stands between two slashes. -/
def stepOf? : List Char → Option Step
  | [] => none
  | ['.'] => some .stay
  | ['.', '.'] => some .up
  | name => some (.enter (String.ofList name))

/-- The path of a text. -/
def ofText (text : String) : Except FileFault Path :=
  let cs := text.toList
  if cs = [] then .error .missing
  else if pathLimit ≤ text.utf8ByteSize then .error .nameTooLong
  else
    .ok {
      isAbsolute := cs.head? = some '/'
      steps := (Text.fields '/' cs).filterMap stepOf?
      endsInSlash := cs.getLast? = some '/' }

/-- The steps that lead to what the path names.  A slash at the end asks for a
directory, as a dot behind it would. -/
def whole (p : Path) : List Step := if p.endsInSlash then p.steps ++ [.stay] else p.steps

/-- The steps that lead somewhere: of the dots that stay only one at the start of the
path counts. -/
def parts (p : Path) : List Step :=
  match p.isAbsolute, p.steps with
  | false, .stay :: rest => .stay :: rest.filter (· ≠ .stay)
  | _, steps => steps.filter (· ≠ .stay)

/-- The path of some of the steps, from the same start. -/
def withSteps (p : Path) (steps : List Step) : Path := { p with steps, endsInSlash := false }

end Path

end Wiring
