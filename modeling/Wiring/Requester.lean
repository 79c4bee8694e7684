import Wiring.Document

/-!
# Who makes a request

A requester has a name, and may belong to a household.
-/

namespace Wiring

open Json (Decoder text textOrNull record fields)

/-- Whoever makes a request. -/
structure Requester where
  name : String
  household? : Option String := none
deriving DecidableEq, Repr

/-- The document of a requester. -/
def Requester.encode (r : Requester) : Json :=
  record [("name", text r.name), ("household", textOrNull r.household?)]

/-- Read a requester. -/
def Requester.decode : Decoder Requester := fun room value => do
  let f ← fields ["name", "household"] 2 room value
  return ⟨← f.get "name" .text, ← f.getD "household" (.nullable .text) none⟩

instance : Document Requester := ⟨Requester.encode, Requester.decode⟩

end Wiring
