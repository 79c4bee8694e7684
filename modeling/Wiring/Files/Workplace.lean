import Wiring.Files.Tree

/-!
# Working in a directory tree

A directory tree with the place that relative paths start from.  The operations are
those of a system on its disk, and fail with the same faults.
-/

namespace Wiring

/-- A directory tree and the place in it where the work is done. -/
structure Workplace where
  /-- The tree, from its root. -/
  root : Tree := .directory []
  here : Place := []

namespace Workplace

/-- Where a path starts. -/
def start (w : Workplace) (path : Path) : Place := if path.isAbsolute then [] else w.here

/-! ## Looking -/

/-- What stands at a path. -/
def get (w : Workplace) (text : String) : Except FileFault Tree := do
  let path ← Path.ofText text
  let place ← w.root.follow (w.start path) path.whole
  match w.root.look? place with
  | none => throw .missing
  | some t => return t

/-- The contents of a file. -/
def read (w : Workplace) (text : String) : Except FileFault String := do
  match ← w.get text with
  | .file content => return content
  | .directory _ => throw .isDirectory

/-- Whether there is a file or a directory. -/
def isThere (w : Workplace) (text : String) : Bool := (w.get text).toOption.isSome

/-- The names in a directory. -/
def names (w : Workplace) (text : String) : Except FileFault (List String) := do
  match ← w.get text with
  | .file _ => throw .notDirectory
  | .directory entries => return entries.map (·.1)

/-! ## Changing -/

/-- The directory that a path leads to before its last step, and that step. -/
def beforeLast (w : Workplace) (path : Path) : Except FileFault (Place × Step) := do
  let place ← w.root.follow (w.start path) (path.steps.dropLast ++ [.stay])
  return (place, path.steps.getLast?.getD .stay)

/-- Put something at a place, or take away what stands there. -/
def put (w : Workplace) (place : Place) (t? : Option Tree) : Workplace :=
  { w with root := w.root.put place t? }

/-- Write a file, in place of an old one. -/
def write (w : Workplace) (text content : String) : Except FileFault Workplace := do
  let path ← Path.ofText text
  match ← w.beforeLast path with
  | (place, .enter name) =>
    if path.endsInSlash then throw .isDirectory
    match w.root.enter place name with
    | .error .missing => return w.put (name :: place) (some (.file content))
    | .error fault => throw fault
    | .ok found =>
      match w.root.look? found with
      | some (.directory _) => throw .isDirectory
      | _ => return w.put found (some (.file content))
  | _ => throw .isDirectory

/-- Remove a file, or a directory with all that is in it. -/
def remove (w : Workplace) (text : String) : Except FileFault Workplace := do
  let path ← Path.ofText text
  return w.put (← w.root.follow (w.start path) path.whole) none

/-- Make a directory in one that is there. -/
def makeDirectory (w : Workplace) (path : Path) : Except FileFault Workplace := do
  match ← w.beforeLast path with
  | (place, .enter name) =>
    match w.root.enter place name with
    | .error .missing => return w.put (name :: place) (some (.directory []))
    | .error fault => throw fault
    | .ok _ => throw .present
  | _ => throw .present

/-- Make a directory unless it is there. -/
def ensureDirectory (w : Workplace) (path : Path) : Except FileFault Workplace :=
  match w.makeDirectory path with
  | .error .present => do
    let place ← w.root.follow (w.start path) path.steps
    match w.root.entries place with
    | .error _ => throw .present
    | .ok _ => return w
  | made => made

/-- Make a directory unless it is there; if that fails because something is missing
on the way to it, make the way and try again. -/
def ensureBehind (w : Workplace) (path : Path) (way : Except FileFault Workplace) :
    Except FileFault Workplace :=
  match w.ensureDirectory path with
  | .error .missing => way >>= fun w => w.ensureDirectory path
  | made => made

/-- Make the directories at the end of steps that are given last first, with all that
are missing above them. -/
def makeWay (w : Workplace) (path : Path) : List Step → Except FileFault Workplace
  | [] => .ok w
  | last :: above =>
    w.ensureBehind (path.withSteps (last :: above).reverse) (w.makeWay path above)

/-- Make a directory, with all directories that are missing above it. -/
def makeDirectories (w : Workplace) (text : String) : Except FileFault Workplace := do
  if text = "" then return w
  let path ← Path.ofText text
  w.ensureBehind path (w.makeWay path (path.parts.reverse.drop 1))

/-- Give a file another path, in place of an old file there. -/
def move (w : Workplace) (source target : String) : Except FileFault Workplace := do
  (← w.write target (← w.read source)).remove source

end Workplace

end Wiring
