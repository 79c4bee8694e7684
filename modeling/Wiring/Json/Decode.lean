import Wiring.Json.Read
import Wiring.Table

/-!
# From JSON values to data

A decoder reads data of one type from a JSON value.  Containers may stand inside
one another to a fixed depth only, so a decoder is told how many levels of
containers it still has room for.

Records are written as objects.  They are read from objects, in which unknown
keys do not count and no known key may stand twice, and also from lists of their
fields in order.  Tables are objects in which the last value of a key counts.
-/

namespace Wiring.Json

/-- The number of levels of containers that a document may have. -/
def depthLimit : Nat := 127

/-- A way to read data from a JSON value, given the room for containers. -/
abbrev Decoder (α : Type) := Nat → Json → Option α

namespace Decoder

variable {α : Type}

/-- A text. -/
def text : Decoder String
  | _, .string text? => text?
  | _, _ => none

/-- Data that may be null. -/
def nullable (decode : Decoder α) : Decoder (Option α)
  | _, .null => some none
  | room, value => (decode room value).map some

/-- Read every member of a list. -/
def all {β : Type} (read : β → Option α) : List β → Option (List α)
  | [] => some []
  | b :: rest =>
    match read b, all read rest with
    | some a, some others => some (a :: others)
    | _, _ => none

/-- A list. -/
def list (decode : Decoder α) : Decoder (List α)
  | room + 1, .array items => all (decode room) items
  | _, _ => none

/-- The members of an object whose keys are all texts. -/
def namedMembers (members : List (Option String × Json)) : Option (List (String × Json)) :=
  all (fun (key?, value) => key?.map fun key => (key, value)) members

/-- A table. -/
def table (decode : Decoder α) : Decoder (Table α)
  | room + 1, .object members =>
    match namedMembers members with
    | none => none
    | some named =>
      (all (fun (key, value) => (decode room value).map fun a => (key, a)) named).map
        Table.ofList
  | _, _ => none

end Decoder

/-! ## Records -/

/-- The fields of a record that a JSON value gives. -/
structure Fields where
  room : Nat
  given : List (String × Json)

/-- The fields of a record with the names `names`.  A list gives the first of them,
and must give `least` of them. -/
def fields (names : List String) (least : Nat) : Decoder Fields
  | room + 1, .object members =>
    match Decoder.namedMembers members with
    | none => none
    | some named =>
      let given := named.filter fun (key, _) => names.contains key
      if (given.map (·.1)).Nodup then some ⟨room, given⟩ else none
  | room + 1, .array items =>
    if least ≤ items.length ∧ items.length ≤ names.length then some ⟨room, names.zip items⟩
    else none
  | _, _ => none

namespace Fields

variable {α : Type}

/-- A field that must be given. -/
def get (f : Fields) (name : String) (decode : Decoder α) : Option α :=
  match f.given.lookup name with
  | none => none
  | some value => decode f.room value

/-- A field that stands for a default when it is not given. -/
def getD (f : Fields) (name : String) (decode : Decoder α) (default : α) : Option α :=
  match f.given.lookup name with
  | none => some default
  | some value => decode f.room value

end Fields

/-! ## Documents -/

/-- Decode a whole document. -/
def decode? {α : Type} (decode : Decoder α) (text : String) : Option α :=
  match read text with
  | none => none
  | some value => decode depthLimit value

/-- The text of a table as a JSON value. -/
def ofTable {α : Type} (encode : α → Json) (t : Table α) : Json :=
  record (t.entries.map fun (key, value) => (key, encode value))

end Wiring.Json
