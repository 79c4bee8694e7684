import Wiring.Json.Token

/-!
# JSON texts for people

The pretty form has one item or member to a line, indented by two blanks for each
container around it, and one blank after the colon.  Empty containers stay on
their line.
-/

namespace Wiring.Json

/-- A line end and the indentation inside `depth` containers. -/
def newline (depth : Nat) : List Char := '\n' :: List.replicate (2 * depth) ' '

mutual

/-- The pretty form of a value inside `depth` containers. -/
def prettyValue (depth : Nat) : Json → List Char
  | .array [] => ['[', ']']
  | .array (item :: rest) =>
    '[' :: prettyItems (depth + 1) (item :: rest) ++ newline depth ++ [']']
  | .object [] => ['\x7b', '\x7d']
  | .object (member :: rest) =>
    '\x7b' :: prettyMembers (depth + 1) (member :: rest) ++ newline depth ++ ['\x7d']
  | .null => Token.null.text
  | .bool value => (Token.bool value).text
  | .number value => (Token.number value).text
  | .string text? => (Token.string text?).text

/-- The lines of the items of a list. -/
def prettyItems (depth : Nat) : List Json → List Char
  | [] => []
  | [value] => newline depth ++ prettyValue depth value
  | value :: next :: rest =>
    newline depth ++ prettyValue depth value ++ ',' :: prettyItems depth (next :: rest)

/-- The lines of the members of an object. -/
def prettyMembers (depth : Nat) : List (Option String × Json) → List Char
  | [] => []
  | [(key, value)] => newline depth ++ literal key ++ ':' :: ' ' :: prettyValue depth value
  | (key, value) :: next :: rest =>
    newline depth ++ literal key ++ ':' :: ' ' :: prettyValue depth value ++
      ',' :: prettyMembers depth (next :: rest)

end

/-- The pretty form of a value. -/
def pretty (value : Json) : String := String.ofList (prettyValue 0 value)

end Wiring.Json
