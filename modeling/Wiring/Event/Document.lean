import Wiring.Document
import Wiring.Event
import Wiring.Instant
import Wiring.Json.Readable
import Wiring.Uuid

/-!
# The document of an event

An event is written with the time at which it happened, and the fields of its
status stand beside its own:

    request, operation, component, status, lines or reason, at

Since any key may belong to the status, all other members are read in full, and a
member that could not be read spoils the event even where its key means nothing.
-/

namespace Wiring

open Json (Decoder text textOrNull natural record)

/-- An event of a request that is named by an identifier, with its time. -/
structure DatedEvent where
  event : Event Uuid
  time : Instant
deriving DecidableEq, Repr

namespace DatedEvent

/-- The fields of a status. -/
def statusFields (status : Status) : List (String × Json) :=
  ("status", text status.name) ::
    match status with
    | .submitted lines => [("lines", natural lines)]
    | .skipped reason => [("reason", text reason)]
    | .applied | .rejected | .abandoned => []

/-- The document of an event. -/
def encode (e : DatedEvent) : Json :=
  record
    ([("request", text e.event.request.text), ("operation", text e.event.operation.name),
      ("component", textOrNull e.event.component?)] ++
      statusFields e.event.status ++ [("at", text e.time.text)])

end DatedEvent

/-! ## Reading -/

/-- Read an operation: its name, or an object with the name as its only key and a
null value. -/
def Operation.decode : Decoder Operation
  | _, .string (some name) => Operation.ofName? name
  | _ + 1, .object [(some name, .null)] => Operation.ofName? name
  | _, _ => none

namespace DatedEvent

/-- The only value under a key; nothing when there is none or there are several. -/
def only? (key : String) (members : List (String × Json)) : Option Json :=
  match members.filter fun member => member.1 = key with
  | [member] => some member.2
  | _ => none

/-- The name of a status, given by itself or by its number. -/
def statusName? : Json → Option String
  | .string name? => name?
  | value => do ["submitted", "applied", "rejected", "abandoned", "skipped"][← value.unsigned?]?

/-- The status that the members of an event give. -/
def status? (members : List (String × Json)) : Option Status := do
  match ← statusName? (← only? "status" members) with
  | "submitted" => return .submitted (← (← only? "lines" members).unsigned?)
  | "applied" => return .applied
  | "rejected" => return .rejected
  | "abandoned" => return .abandoned
  | "skipped" => return .skipped (← Decoder.text 0 (← only? "reason" members))
  | _ => none

/-- The names of the fields of an event that are not those of its status. -/
def fieldNames : List String := ["request", "operation", "component", "at"]

/-- Read an event. -/
def decode : Decoder DatedEvent := fun room value =>
  match value with
  | .array _ => none
  | _ => do
    let own ← Json.fields fieldNames 0 room value
    let .object members := value | none
    let others := (← Decoder.namedMembers members).filter fun (key, _) => !fieldNames.contains key
    if !others.all fun (_, value) => value.isReadable own.room then none
    let request ← Uuid.read (← own.get "request" .text)
    let operation ← own.get "operation" Operation.decode
    let component? ← own.getD "component" (.nullable .text) none
    let time ← Instant.read (← own.get "at" .text)
    return ⟨⟨request, operation, component?, ← status? others⟩, time⟩

instance : Document DatedEvent := ⟨encode, decode⟩

end DatedEvent

end Wiring
