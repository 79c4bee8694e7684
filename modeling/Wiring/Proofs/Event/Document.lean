import Wiring.Event.Document
import Wiring.Proofs.Instant
import Wiring.Proofs.Json.Decoding
import Wiring.Proofs.Json.Readable
import Wiring.Proofs.Uuid

/-!
# Events restored from their documents

The fields of a status stand among those of its event.  The names of the event's own fields
tell them apart, and those that are left give the status back, `status?_statusFields`, and
can be read in full, `all_isReadable_statusFields`.  So an event is restored from its
document, `restores_event`.
-/

namespace Wiring.DatedEvent

open Json (Decoder Fields Restores text textOrNull natural record exists_room_of_record
  restores_textOrNull)

/-- Whether the number of lines of a status fits into 64 bits, as that of a script does. -/
def LinesFit (status : Status) : Prop := ∀ lines, status = .submitted lines → lines < UInt64.size

/-- A status is restored from its fields. -/
theorem status?_statusFields {status : Status} (h : LinesFit status) :
    status? (statusFields status) = some status := by
  cases status with
  | submitted lines =>
    have hlines : (natural lines).unsigned? = some lines := if_pos (h lines rfl)
    simp [status?, statusFields, only?, statusName?, Status.name, text, hlines]
  | _ => simp [status?, statusFields, only?, statusName?, Status.name, text, Decoder.text]

/-- The fields of a status can be read in full. -/
theorem all_isReadable_statusFields {status : Status} (h : LinesFit status) (room : Nat) :
    (statusFields status).all (fun member => member.2.isReadable room) = true := by
  cases status with
  | submitted lines =>
    have hlines := Number.isTooLarge_whole (h lines rfl) false
    simp [statusFields, Json.isReadable, text, natural, hlines]
  | _ => simp [statusFields, Json.isReadable, text]

/-- The members of the document of an event. -/
def members (e : DatedEvent) : List (String × Json) :=
  [("request", text e.event.request.text), ("operation", text e.event.operation.name),
    ("component", textOrNull e.event.component?)] ++ statusFields e.event.status ++
    [("at", text e.time.text)]

/-- The members that do not belong to the status. -/
def ownMembers (e : DatedEvent) : List (String × Json) :=
  [("request", text e.event.request.text), ("operation", text e.event.operation.name),
    ("component", textOrNull e.event.component?), ("at", text e.time.text)]

theorem nodup_members (e : DatedEvent) : (e.members.map (·.1)).Nodup := by
  rw [members]
  cases e.event.status <;> simp [statusFields]

theorem filter_fieldNames (e : DatedEvent) :
    (e.members.filter fun member => fieldNames.contains member.1) = e.ownMembers := by
  rw [members, ownMembers]
  cases e.event.status <;> simp [statusFields, fieldNames]

theorem filter_not_fieldNames (e : DatedEvent) :
    (e.members.filter fun member => !fieldNames.contains member.1) =
      statusFields e.event.status := by
  rw [members]
  cases e.event.status <;> simp [statusFields, fieldNames]

/-- An event is restored from its document. -/
theorem restores_event {e : DatedEvent} (h : LinesFit e.event.status) :
    Restores decode e.encode e := by
  intro room hroom
  obtain ⟨inner, rfl, hinner⟩ := exists_room_of_record hroom
  have hencode : e.encode = .object (e.members.map fun member => (some member.1, member.2)) := rfl
  have hown : Json.fields fieldNames 0 (inner + 1) e.encode = some ⟨inner, e.ownMembers⟩ := by
    rw [← filter_fieldNames]
    exact Json.fields_record e.nodup_members
  have htext : ∀ s, Decoder.text inner (text s) = some s := fun _ => rfl
  have hoperation : Operation.decode inner (text e.event.operation.name) =
      some e.event.operation := Operation.ofName?_name _
  have hcomponent := restores_textOrNull e.event.component? inner
    (hinner ("component", textOrNull e.event.component?) (by simp))
  -- Each field of its own is found under its name.
  have hget : ∀ {α : Type} (read : Decoder α),
      Fields.get ⟨inner, e.ownMembers⟩ "request" read = read inner (text e.event.request.text) ∧
      Fields.get ⟨inner, e.ownMembers⟩ "operation" read =
        read inner (text e.event.operation.name) ∧
      Fields.get ⟨inner, e.ownMembers⟩ "at" read = read inner (text e.time.text) := fun read => by
    simp [Fields.get, ownMembers, List.lookup_cons]
  have hgetD : Fields.getD ⟨inner, e.ownMembers⟩ "component" (.nullable .text) none =
      some e.event.component? := by
    simp [Fields.getD, ownMembers, List.lookup_cons, hcomponent]
  rw [decode, hown, hencode]
  · simp only [Option.bind_eq_bind, Option.bind_some, Json.namedMembers_map,
      filter_not_fieldNames, all_isReadable_statusFields h, hget, hgetD, hoperation,
      status?_statusFields h, htext, Uuid.read_text, Instant.read_text, Bool.not_true,
      Bool.false_eq_true, if_false]
    rfl
  · rintro items heq
    rw [hencode] at heq
    cases heq

theorem depth_encode_le (e : DatedEvent) : e.encode.depth ≤ 1 := by
  refine Json.depth_record_le ?_
  cases e.event.status <;>
    simp [statusFields, natural, Json.depth, Json.depth_text, Json.depth_textOrNull]

end Wiring.DatedEvent
