/-!
# Turns

Requests on one component id take turns.  Whoever asks for the turn on an id
gets it at once when nobody has it, and waits in line otherwise; a turn that is
given back goes to the first in its line.

A table holds one lock for each id that somebody has or waits for.  Asking for a
turn first removes the locks that nobody refers to any more, then finds or makes
the lock of the id.  Locks are numbered, and a number is never used again, so a
lock that was removed and made again is another lock.
-/

namespace Wiring

/-- Somebody who has or waits for a turn. -/
structure Party (η : Type) where
  handle : η
  id : String
  /-- The lock of that id when it was asked for. -/
  lock : Nat
deriving DecidableEq, Repr

/-- The turns on all ids. -/
structure Turns (η : Type) where
  locks : List (String × Nat) := []
  /-- Who has a turn, in the order in which the turns were given. -/
  holders : List (Party η) := []
  /-- Who waits for a turn, in the order of asking. -/
  waiting : List (Party η) := []
  nextLock : Nat := 0
deriving Repr

namespace Turns

variable {η : Type}

/-- Everybody who refers to a lock. -/
def parties (t : Turns η) : List (Party η) := t.holders ++ t.waiting

/-- Whether somebody refers to a lock. -/
def isReferred (t : Turns η) (lock : Nat) : Bool :=
  t.parties.any fun party => party.lock = lock

/-- Remove the locks that nobody refers to. -/
def prune (t : Turns η) : Turns η :=
  { t with locks := t.locks.filter fun entry => t.isReferred entry.2 }

/-- The lock of an id in the table. -/
def lockOf? (t : Turns η) (id : String) : Option Nat :=
  (t.locks.find? fun entry => entry.1 = id).map (·.2)

/-- Join the line of a lock, at once as the holder when nobody else is there. -/
def join (t : Turns η) (party : Party η) : Turns η :=
  if t.isReferred party.lock then { t with waiting := t.waiting ++ [party] }
  else { t with holders := t.holders ++ [party] }

/-- Ask for the turn on an id. -/
def acquire (t : Turns η) (handle : η) (id : String) : Turns η :=
  let t := t.prune
  match t.lockOf? id with
  | some lock => t.join ⟨handle, id, lock⟩
  | none =>
    { t with
      locks := t.locks ++ [(id, t.nextLock)]
      nextLock := t.nextLock + 1 }.join ⟨handle, id, t.nextLock⟩

/-- Give the turn on a lock to the first who waits for it. -/
def grantNext (t : Turns η) (lock : Nat) : Turns η :=
  match t.waiting.find? fun party => party.lock = lock with
  | none => t
  | some party =>
    { t with
      holders := t.holders ++ [party]
      waiting := t.waiting.eraseP fun party => party.lock = lock }

variable [DecidableEq η]

/-- Whether somebody has a turn. -/
def holds (t : Turns η) (handle : η) : Bool :=
  t.holders.any fun party => party.handle = handle

/-- Give the turn back, or stop waiting for it. -/
def release (t : Turns η) (handle : η) : Turns η :=
  match t.holders.find? fun party => party.handle = handle with
  | some party =>
    { t with holders := t.holders.eraseP fun party => party.handle = handle }.grantNext
      party.lock
  | none => { t with waiting := t.waiting.eraseP fun party => party.handle = handle }

end Turns

end Wiring
