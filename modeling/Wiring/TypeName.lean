import Wiring.Text.Cut

/-!
# Names of component types

A type name is a dotted path, possibly followed by a slash and a version.  The
version is cut off at the first slash before the path is looked at, since
versions hold dots of their own; the last segment of what remains is the simple
name, and the segments before it are the package.
-/

namespace Wiring

open Wiring.Text

/-- A type name without its version, split at its last dot. -/
structure TypeName where
  /-- The dotted package path, empty when the name is unqualified. -/
  package : String
  simple : String
deriving DecidableEq, Repr

/-- Split a type name; every text is one. -/
def TypeName.parse (name : String) : TypeName :=
  let path := upTo '/' name.toList
  match cutLast '.' path with
  | none => ⟨"", String.ofList path⟩
  | some (package, simple) => ⟨String.ofList package, String.ofList simple⟩

/-- Two type names denote the same simple type.  Packages and versions do not
count, upper and lower case do. -/
def TypeName.sameSimple (s t : TypeName) : Bool :=
  s.simple = t.simple

end Wiring
