import Wiring.Files.Path

/-!
# Directory trees

Files and directories in memory, and the places in such a tree.  A place is given by
the names from the root to it, the innermost first; the steps of a path lead from
place to place, with the faults that a system reports.
-/

namespace Wiring

/-- A file, or a directory with its entries. -/
inductive Tree where
  | file (content : String)
  /-- A directory; each name stands once. -/
  | directory (entries : List (String × Tree))

/-- The names from the root to a place, the innermost first. -/
abbrev Place := List String

namespace Tree

/-! ## Looking -/

/-- What stands at the end of names. -/
def find? : List String → Tree → Option Tree
  | [], t => some t
  | _ :: _, .file _ => none
  | name :: rest, .directory entries =>
    match entries.lookup name with
    | none => none
    | some t => find? rest t

/-- What stands at a place. -/
def look? (t : Tree) (place : Place) : Option Tree := t.find? place.reverse

/-- The entries of the directory at a place. -/
def entries (t : Tree) (place : Place) : Except FileFault (List (String × Tree)) :=
  match t.look? place with
  | some (.directory entries) => .ok entries
  | _ => .error .notDirectory

/-- The place of the entry of a name in the directory at a place. -/
def enter (t : Tree) (place : Place) (name : String) : Except FileFault Place := do
  let entries ← t.entries place
  if nameLimit < name.utf8ByteSize then .error .nameTooLong
  else if (entries.lookup name).isNone then .error .missing
  else .ok (name :: place)

/-- Take one step, which needs a directory to be taken in. -/
def take (t : Tree) (place : Place) : Step → Except FileFault Place
  | .stay => (t.entries place).map fun _ => place
  | .up => (t.entries place).map fun _ => place.drop 1
  | .enter name => t.enter place name

/-- Take steps one after another. -/
def follow (t : Tree) (place : Place) : List Step → Except FileFault Place
  | [] => .ok place
  | step :: rest => t.take place step >>= fun next => t.follow next rest

/-! ## Changing -/

/-- Entries with another one under a name, or without one. -/
def set (name : String) (t? : Option Tree) (entries : List (String × Tree)) :
    List (String × Tree) :=
  match t? with
  | none => entries.filter fun entry => entry.1 ≠ name
  | some t =>
    if (entries.lookup name).isSome then
      entries.map fun entry => if entry.1 = name then (name, t) else entry
    else entries ++ [(name, t)]

/-- Put something at the end of names, or take away what stands there.  Where the
names lead nowhere nothing changes. -/
def putAtEnd (t? : Option Tree) : List String → Tree → Tree
  | [], t => t
  | _ :: _, .file content => .file content
  | [name], .directory entries => .directory (set name t? entries)
  | name :: next :: rest, .directory entries =>
    match entries.lookup name with
    | none => .directory entries
    | some sub => .directory (set name (some (putAtEnd t? (next :: rest) sub)) entries)

/-- Put something at a place, or take away what stands there. -/
def put (t : Tree) (place : Place) (t? : Option Tree) : Tree := t.putAtEnd t? place.reverse

end Tree

end Wiring
