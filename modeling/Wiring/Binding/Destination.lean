import Wiring.Failure
import Wiring.Text.Cut

/-!
# Destination tokens

A destination names one port of one component by three fields between dots: the
node, the id of the component, and the port.
-/

namespace Wiring

open Wiring.Text

/-- A port that a binding leads to. -/
structure Destination where
  component : ComponentPath
  port : String
deriving DecidableEq, Repr, Inhabited

namespace Destination

/-- The text of a destination. -/
def text (d : Destination) : String := d.component.member d.port

/-- A destination as the address of a port. -/
def portRef (d : Destination) : PortRef := ⟨d.component, d.port⟩

/-- Read a destination token: exactly three fields, none of them empty. -/
def parse (token : String) : Except Failure Destination :=
  match fields '.' token.toList with
  | [node, id, port] =>
    if node ≠ [] ∧ id ≠ [] ∧ port ≠ [] then
      .ok ⟨⟨String.ofList node, String.ofList id⟩, String.ofList port⟩
    else .error (.invalidBinding token (.fieldCount 3))
  | parts => .error (.invalidBinding token (.fieldCount parts.length))

end Destination

end Wiring
