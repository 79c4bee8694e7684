import Wiring.Binding.Fill
import Wiring.Text.Blank

/-!
# Requested components

What a start request says about the component to start: its type, its id, its
attributes, and explicit destinations per port.  Attributes whose key begins with
the binding prefix hold binding specifications; the others are plain values.
-/

namespace Wiring

open Wiring.Text

/-- The properties of a component to start. -/
structure Component where
  /-- The type, possibly qualified and versioned. -/
  typeName : String := ""
  id : String := ""
  attributes : Table String := .empty
  portBindings : PortBindings := .empty
deriving DecidableEq, Repr, Inhabited

/-- Whether a key begins with a prefix. -/
def carries (keyPrefix key : String) : Bool :=
  keyPrefix.toList.isPrefixOf key.toList

namespace Component

/-- Check that a request says what to start. -/
def validate (c : Component) : Except Failure Unit :=
  if isBlankText c.id then .error (.notFound (.idOfStart c.typeName))
  else if isBlankText c.typeName then .error (.notFound (.typeOfStart c.id))
  else .ok ()

/-- The address of the component on a node. -/
def path (c : Component) (node : String) : ComponentPath := ⟨node, c.id⟩

/-- The attributes that hold binding specifications, by key. -/
def bindingAttributes (c : Component) (keyPrefix : String) : List (String × String) :=
  c.attributes.entries.filter fun entry => carries keyPrefix entry.1

/-- The attributes that hold plain values, by key. -/
def plainAttributes (c : Component) (keyPrefix : String) : List (String × String) :=
  c.attributes.entries.filter fun entry => !carries keyPrefix entry.1

end Component

end Wiring
