/-!
# JSON values

What a JSON text says.  Objects keep their members in the order of the text, and
a key may stand more than once: what that means is for the reader of a document
to decide.  A string literal stands for a text, unless its escapes name half of a
surrogate pair, which is no character; then it stands for nothing.
-/

namespace Wiring

/-- A number, as it is written. -/
inductive Number where
  /-- Digits alone, perhaps after a minus sign. -/
  | whole (negative : Bool) (magnitude : Nat)
  /-- Digits with a point or an exponent: the whole part, the digits behind the
  point, and the power of ten that all of it is to be multiplied by. -/
  | decimal (negative : Bool) (whole : Nat) (fraction : List (Fin 10)) (exponent : Int)
deriving DecidableEq, Repr

/-- A JSON value. -/
inductive Json where
  | null
  | bool (value : Bool)
  | number (value : Number)
  /-- A string literal, with the text that it stands for. -/
  | string (text? : Option String)
  | array (items : List Json)
  | object (members : List (Option String × Json))

namespace Json

/-- The value of a text. -/
def text (s : String) : Json := .string (some s)

/-- The value of a text that may be missing. -/
def textOrNull : Option String → Json
  | none => .null
  | some s => text s

/-- The value of a natural number. -/
def natural (n : Nat) : Json := .number (.whole false n)

/-- An object with texts as keys. -/
def record (members : List (String × Json)) : Json :=
  .object (members.map fun (key, value) => (some key, value))

end Json

end Wiring
