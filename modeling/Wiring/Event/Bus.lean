import Wiring.Event
import Wiring.Notice

/-!
# The event bus

Events are published to a bus and read by listeners, each at its own pace.  The
bus keeps the last events, as many as its capacity; a listener that falls behind
by more goes on with the oldest event that is kept, and a notice says how many
it missed.  Capacities are powers of two.

The bus is the list of everything ever published; what it keeps is the end of
that list.  A listener is the number of events that lie behind it.
-/

namespace Wiring

/-- A bus for events of some type. -/
structure Bus (ε : Type) where
  capacity : Nat
  /-- Everything published, the oldest event first. -/
  published : List ε := []
  isOpen : Bool := true
deriving Repr

/-- A listener of a bus. -/
structure Listener where
  position : Nat
deriving DecidableEq, Repr

/-- What a listener gets when it asks for one event. -/
inductive Reception (ε : Type) where
  | event (e : ε)
  | pending
  | ended
deriving Repr

namespace Bus

variable {ε : Type}

/-- The capacity of a bus when none is asked for. -/
def defaultCapacity : Nat := 256

/-- The least power of two that is not below `n`. -/
def roundUp (n : Nat) : Nat := if n ≤ 1 then 1 else Nat.pow 2 ((n - 1).log2 + 1)

/-- A bus that keeps at least `capacity` events. -/
def create (capacity : Nat) : Bus ε := { capacity := roundUp capacity }

/-- Publish an event; after the bus is closed it goes nowhere. -/
def publish (bus : Bus ε) (event : ε) : Bus ε :=
  if bus.isOpen then { bus with published := bus.published ++ [event] } else bus

/-- Close the bus. -/
def close (bus : Bus ε) : Bus ε := { bus with isOpen := false }

/-- A listener for everything published from now on. -/
def subscribe (bus : Bus ε) : Listener := ⟨bus.published.length⟩

/-- The number of events that are no longer kept. -/
def dropped (bus : Bus ε) : Nat := bus.published.length - bus.capacity

end Bus

namespace Listener

variable {ε : Type}

/-- Move a listener that fell behind to the oldest event kept. -/
def catchUp (l : Listener) (bus : Bus ε) : Listener × List Notice :=
  if l.position < bus.dropped then (⟨bus.dropped⟩, [.lagged (bus.dropped - l.position)])
  else (l, [])

/-- What a listener gets at the end of what was published. -/
def atEnd (bus : Bus ε) : Reception ε := if bus.isOpen then .pending else .ended

/-- Read the next event. -/
def next (l : Listener) (bus : Bus ε) : Reception ε × Listener × List Notice :=
  let (l, notices) := l.catchUp bus
  match bus.published[l.position]? with
  | some event => (.event event, ⟨l.position + 1⟩, notices)
  | none => (atEnd bus, l, notices)

/-- Read everything there is. -/
def drain (l : Listener) (bus : Bus ε) : List ε × Listener × List Notice :=
  let (l, notices) := l.catchUp bus
  (bus.published.drop l.position, ⟨max l.position bus.published.length⟩, notices)

/-- Read up to the first event of a kind, passing over the others. -/
def nextThat (l : Listener) (bus : Bus ε) (wanted : ε → Bool) :
    Reception ε × Listener × List Notice :=
  let (l, notices) := l.catchUp bus
  let unread := bus.published.drop l.position
  match unread.find? wanted with
  | some event => (.event event, ⟨l.position + unread.findIdx wanted + 1⟩, notices)
  | none => (atEnd bus, ⟨max l.position bus.published.length⟩, notices)

/-- Read up to the first answer of a request. -/
def waitFor {ρ : Type} [DecidableEq ρ] (l : Listener) (bus : Bus (Event ρ)) (request : ρ) :
    Reception (Event ρ) × Listener × List Notice :=
  l.nextThat bus fun event => event.request = request && event.isTerminal

end Listener

end Wiring
