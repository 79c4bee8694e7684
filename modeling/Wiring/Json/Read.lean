import Wiring.Json.Scan

/-!
# From JSON tokens to values

The tokens are taken one at a time.  What has been read so far is a stack of open
containers, the innermost first, with what may come next: a value, the first item
of a list, a key, a colon, or the mark behind a complete value.  Each token leads
on to exactly one such state or is out of place, so reading ends with the tokens.
-/

namespace Wiring.Json

/-- A container that is not complete: what stands in it before the value that is
being read. -/
inductive Frame where
  | array (before : List Json)
  /-- An object, with the key of the value. -/
  | object (before : List (Option String × Json)) (key : Option String)

/-- How far reading has come; `frames` are the open containers. -/
inductive Reading where
  | due (frames : List Frame)
  /-- The first item of a list is due, or its end. -/
  | firstItem (frames : List Frame)
  /-- The first key of an object is due, or its end. -/
  | firstKey (frames : List Frame)
  | nextKey (before : List (Option String × Json)) (frames : List Frame)
  | colon (before : List (Option String × Json)) (key : Option String) (frames : List Frame)
  | complete (value : Json) (frames : List Frame)

namespace Reading

/-- The begin of a value. -/
def beginValue (frames : List Frame) : Token → Option Reading
  | .null => some (.complete .null frames)
  | .bool value => some (.complete (.bool value) frames)
  | .number value => some (.complete (.number value) frames)
  | .string text? => some (.complete (.string text?) frames)
  | .openArray => some (.firstItem frames)
  | .openObject => some (.firstKey frames)
  | _ => none

/-- What follows a complete value in its container. -/
def afterValue (value : Json) : List Frame → Token → Option Reading
  | .array before :: frames, .comma => some (.due (.array (before ++ [value]) :: frames))
  | .array before :: frames, .closeArray =>
    some (.complete (.array (before ++ [value])) frames)
  | .object before key :: frames, .comma =>
    some (.nextKey (before ++ [(key, value)]) frames)
  | .object before key :: frames, .closeObject =>
    some (.complete (.object (before ++ [(key, value)])) frames)
  | _, _ => none

/-- Take one token. -/
def step : Reading → Token → Option Reading
  | .due frames, token => beginValue frames token
  | .firstItem frames, .closeArray => some (.complete (.array []) frames)
  | .firstItem frames, token => beginValue (.array [] :: frames) token
  | .firstKey frames, .closeObject => some (.complete (.object []) frames)
  | .firstKey frames, .string key => some (.colon [] key frames)
  | .nextKey before frames, .string key => some (.colon before key frames)
  | .colon before key frames, .colon => some (.due (.object before key :: frames))
  | .complete value frames, token => afterValue value frames token
  | _, _ => none

/-- Take tokens in order. -/
def run (reading : Reading) : List Token → Option Reading
  | [] => some reading
  | token :: rest =>
    match reading.step token with
    | none => none
    | some next => next.run rest

/-- The value that was read, when nothing is open. -/
def value? : Reading → Option Json
  | .complete value [] => some value
  | _ => none

end Reading

/-- The value of a sequence of tokens. -/
def ofTokens? (tokens : List Token) : Option Json :=
  match Reading.run (.due []) tokens with
  | none => none
  | some reading => reading.value?

/-- The value of a JSON text. -/
def read (text : String) : Option Json :=
  match tokens? text.toList with
  | none => none
  | some tokens => ofTokens? tokens

end Wiring.Json
