import Wiring.Address
import Wiring.Document

/-!
# The documents of addresses

The address of a component is a record; the id of a channel is a bare text.
-/

namespace Wiring

open Json (Decoder record fields)

/-- The document of the address of a component. -/
def ComponentPath.encode (path : ComponentPath) : Json :=
  record [("node", Json.text path.node), ("id", Json.text path.id)]

/-- Read the address of a component. -/
def ComponentPath.decode : Decoder ComponentPath := fun room value => do
  let f ← fields ["node", "id"] 2 room value
  return ⟨← f.get "node" .text, ← f.get "id" .text⟩

instance : Document ComponentPath := ⟨ComponentPath.encode, ComponentPath.decode⟩

instance : Document ChannelId :=
  ⟨fun channel => Json.text channel.name, fun room value => (Decoder.text room value).map .mk⟩

end Wiring
