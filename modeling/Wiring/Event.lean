import Wiring.Operation

/-!
# Events of requests

A request publishes an event when it hands a script to the apply engine and one
when the answer has come, or a single one when there was nothing to hand over.
The request is named by an identifier of any type.
-/

namespace Wiring

/-- What happened to a request. -/
inductive Status where
  /-- A script with so many operations was handed to the apply engine. -/
  | submitted (lines : Nat)
  | applied
  | rejected
  | abandoned
  /-- There was nothing to submit, for the reason given. -/
  | skipped (reason : String)
deriving DecidableEq, Repr

/-- The name of a status. -/
def Status.name : Status → String
  | .submitted _ => "submitted"
  | .applied => "applied"
  | .rejected => "rejected"
  | .abandoned => "abandoned"
  | .skipped _ => "skipped"

/-- One step in the life of a request. -/
structure Event (ρ : Type) where
  request : ρ
  operation : Operation
  /-- The component that the request is about, if it is about one. -/
  component? : Option String
  status : Status
deriving DecidableEq, Repr

/-- Whether an event is an answer rather than a submission. -/
def Event.isTerminal {ρ : Type} (event : Event ρ) : Bool :=
  match event.status with
  | .submitted _ => false
  | _ => true

end Wiring
