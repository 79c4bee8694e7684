import Wiring.Failure
import Wiring.Json.Decode
import Wiring.Json.Pretty

/-!
# Documents

Data of some types has a document form: a JSON value that is written for it, and a
decoder that reads it back.  A text that is no JSON, or JSON of another form, is a
malformed document.
-/

namespace Wiring

/-- Data with a document form. -/
class Document (α : Type) where
  encode : α → Json
  /-- The way to read the data from a JSON value. -/
  decode : Json.Decoder α

namespace Document

variable {α : Type} [Document α]

/-- The document of data on one line. -/
def line (a : α) : String := (encode a).compact

/-- The document of data in the form for people. -/
def pages (a : α) : String := (encode a).pretty

/-- Read data from its document. -/
def read (text : String) : Except Failure α :=
  match Json.decode? decode text with
  | none => .error .malformedDocument
  | some a => .ok a

end Document

end Wiring
