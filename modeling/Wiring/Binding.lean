import Wiring.Failure
import Wiring.Text.Blank
import Wiring.Text.Cut

/-!
# Binding specifications

A binding specification is a list of entries between commas.  An entry names a
port of the component to start, the type of the components to bind it to, and
the port of those:

    <port> > <type> . <port>        (written without blanks)

The type may be qualified and versioned.  Blanks around entries and empty
entries do not count.
-/

namespace Wiring

open Wiring.Text

/-- One entry of a binding specification. -/
structure BindingEntry where
  sourcePort : String
  typeRef : String
  destPort : String
deriving DecidableEq, Repr, Inhabited

namespace BindingEntry

/-- The characters of port names. -/
def isNameChar (c : Char) : Bool := c.isAlphanum || c = '_' || c = '-'

/-- The characters of a reference: of a type, its version, and a port. -/
def isReferenceChar (c : Char) : Bool := isNameChar c || c = '.' || c = '/'

/-- Split an entry at its arrow into a port name and a reference. -/
def cutArrow (entry : List Char) : Option (List Char × List Char) :=
  match cutFirst '>' entry with
  | none => none
  | some (port, reference) =>
    if port ≠ [] ∧ port.all isNameChar ∧ reference ≠ [] ∧ reference.all isReferenceChar then
      some (port, reference)
    else none

/-- Whether a text can be the name of a destination port. -/
def isPortName : List Char → Bool
  | [] => false
  | c :: rest => (c.isAlpha || c = '_') && (c :: rest).all isNameChar

/-- Whether the slashes of a type are right: there is none, or a single one
between a name and a version. -/
def versionFits (typeRef : List Char) : Bool :=
  match cutFirst '/' typeRef with
  | none => true
  | some (name, version) => name ≠ [] && version ≠ [] && !version.contains '/'

/-- Split a reference at its last dot into a type and a port. -/
def cutReference (reference : List Char) : Except BindingFault (List Char × List Char) :=
  match cutLast '.' reference with
  | none => .error .noPort
  | some (typeRef, port) =>
    if port = [] ∨ typeRef = [] ∨ typeRef.getLast? = some '.' then .error .emptyField
    else if !isPortName port then .error .portInVersion
    else if !versionFits typeRef then .error .version
    else .ok (typeRef, port)

/-- Read one entry, without blanks around it. -/
def parse (entry : List Char) : Except Failure BindingEntry :=
  match cutArrow entry with
  | none => .error (.invalidBinding (String.ofList entry) .shape)
  | some (port, reference) =>
    match cutReference reference with
    | .error fault => .error (.invalidBinding (String.ofList entry) fault)
    | .ok (typeRef, destPort) =>
      .ok ⟨String.ofList port, String.ofList typeRef, String.ofList destPort⟩

/-- Read the entries of pieces in order, up to the first malformed one. -/
def parsePieces : List (List Char) → Except Failure (List BindingEntry)
  | [] => .ok []
  | piece :: others =>
    match parse piece with
    | .error failure => .error failure
    | .ok entry =>
      match parsePieces others with
      | .error failure => .error failure
      | .ok entries => .ok (entry :: entries)

/-- The pieces of a specification that hold an entry, without blanks around
them. -/
def pieces (spec : String) : List (List Char) :=
  ((fields ',' spec.toList).map trim).filter fun piece => piece ≠ []

/-- Read a binding specification. -/
def parseSpec (spec : String) : Except Failure (List BindingEntry) :=
  parsePieces (pieces spec)

end BindingEntry

end Wiring
