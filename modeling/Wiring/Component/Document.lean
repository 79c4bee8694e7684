import Wiring.Component
import Wiring.Document

/-!
# The document of a requested component

All fields may be missing: an id or a type that is not given is empty, and
validation finds it later.
-/

namespace Wiring

open Json (Decoder text record fields ofTable)

/-- The document of attribute values. -/
def encodeAttributes (t : Table String) : Json := ofTable text t

/-- The document of the destinations of ports. -/
def PortBindings.encode (t : PortBindings) : Json :=
  ofTable (fun tokens => .array (tokens.map text)) t

/-- The document of a requested component. -/
def Component.encode (c : Component) : Json :=
  record [("component_type", text c.typeName), ("id", text c.id),
    ("attributes", encodeAttributes c.attributes), ("port_bindings", c.portBindings.encode)]

/-- Read a requested component. -/
def Component.decode : Decoder Component := fun room value => do
  let f ← fields ["component_type", "id", "attributes", "port_bindings"] 0 room value
  return {
    typeName := ← f.getD "component_type" .text ""
    id := ← f.getD "id" .text ""
    attributes := ← f.getD "attributes" (.table .text) .empty
    portBindings := ← f.getD "port_bindings" (.table (.list .text)) .empty }

instance : Document Component := ⟨Component.encode, Component.decode⟩

instance : Document (Table String) := ⟨encodeAttributes, .table .text⟩

end Wiring
