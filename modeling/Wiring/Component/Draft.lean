import Wiring.Binding.Destination
import Wiring.Component
import Wiring.Settings

/-!
# Drafts of start requests

A request can be put together step by step.  Binding specifications become
attributes under the first keys of the sequence `p`, `p_1`, `p_2`, … that the
caller has not used, `p` being the binding prefix.  Everything is checked when
the draft is finished.
-/

namespace Wiring

/-- A start request in the making. -/
structure Draft where
  typeName : String
  id : String
  bindingPrefix : String := ({} : Settings).bindingPrefix
  attributes : Table String := .empty
  /-- The binding specifications, in the order given. -/
  specs : List String := []
  portBindings : PortBindings := .empty
deriving DecidableEq, Repr

namespace Draft

/-- Set the prefix of the keys for binding specifications. -/
def withPrefix (d : Draft) (bindingPrefix : String) : Draft :=
  { d with bindingPrefix }

/-- Give an attribute a value, in place of an earlier one. -/
def withAttribute (d : Draft) (key value : String) : Draft :=
  { d with attributes := d.attributes.insert key value }

/-- Add a binding specification. -/
def withSpec (d : Draft) (spec : String) : Draft :=
  { d with specs := d.specs ++ [spec] }

/-- Add an explicit destination of a port. -/
def withDestination (d : Draft) (port destination : String) : Draft :=
  { d with portBindings := d.portBindings.append port [destination] }

/-- The key of a number in the sequence of a prefix. -/
def specKey (bindingPrefix : String) (n : Nat) : String :=
  if n = 0 then bindingPrefix else bindingPrefix ++ "_" ++ toString n

/-- The first number from `n` on whose key is unused.  A table of `bound` keys
uses at most `bound` of them, so the search may stop after so many. -/
def freeNumber (used : Table String) (bindingPrefix : String) : Nat → Nat → Nat
  | 0, n => n
  | bound + 1, n =>
    if used.contains (specKey bindingPrefix n) then
      freeNumber used bindingPrefix bound (n + 1)
    else n

/-- Store specifications under unused keys, from the number `n` on. -/
def storeSpecs (bindingPrefix : String) (n : Nat) (attributes : Table String) :
    List String → Except Failure (Table String)
  | [] => .ok attributes
  | spec :: specs =>
    match BindingEntry.parseSpec spec with
    | .error failure => .error failure
    | .ok _ =>
      let free := freeNumber attributes bindingPrefix attributes.entries.length n
      storeSpecs bindingPrefix (free + 1)
        (attributes.insert (specKey bindingPrefix free) spec) specs

/-- Check destination tokens in order. -/
def checkDestinations : List String → Except Failure Unit
  | [] => .ok ()
  | token :: tokens =>
    match Destination.parse token with
    | .error failure => .error failure
    | .ok _ => checkDestinations tokens

/-- Check a draft and make the request of it. -/
def finish (d : Draft) : Except Failure Component := do
  Component.validate { typeName := d.typeName, id := d.id }
  checkDestinations (d.portBindings.entries.flatMap (·.2))
  let attributes ← storeSpecs d.bindingPrefix 0 d.attributes d.specs
  return { typeName := d.typeName, id := d.id, attributes, portBindings := d.portBindings }

end Draft

end Wiring
