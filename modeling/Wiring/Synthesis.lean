import Wiring.Binding.Destination
import Wiring.Component
import Wiring.Script
import Wiring.Settings

/-!
# Scripts for requests

The scripts that carry out requests on the node of a linker, made against one
state of the model.  A start adds the component, sets its plain attributes, and
connects its ports.  For each destination a channel is derived; a channel that
neither the model has nor an earlier destination brought along is created and
joined to the destination first, then the port of the started component is
joined to it.
-/

namespace Wiring

open Wiring.Text

/-- What scripts are made with: a state of the model, and the settings. -/
structure Synthesis where
  model : Model
  settings : Settings
deriving DecidableEq, Repr

namespace Synthesis

/-- The node that scripts are made for. -/
def node (s : Synthesis) : String := s.settings.nodeName

/-- The channel for bindings into a destination. -/
def channelFor (s : Synthesis) (d : Destination) : ChannelId :=
  ChannelId.derive d.port s.node d.component.id

/-- The destinations of ports, in the order of the ports and of their lists,
up to the first malformed one. -/
def readPairs : List (String × String) → Except Failure (List (String × Destination))
  | [] => .ok []
  | (port, token) :: rest =>
    match Destination.parse token with
    | .error failure => .error failure
    | .ok destination =>
      match readPairs rest with
      | .error failure => .error failure
      | .ok pairs => .ok ((port, destination) :: pairs)

/-- The pairs of a port and a destination token, in the order of the ports. -/
def tokenPairs (bindings : PortBindings) : List (String × String) :=
  bindings.entries.flatMap fun (port, tokens) => tokens.map fun token => (port, token)

/-- The operations that connect a port of the component at `source` to a
destination.  `known` are the channels that exist or are created before. -/
def connect (s : Synthesis) (source : ComponentPath) (known : List ChannelId)
    (port : String) (destination : Destination) : Script :=
  let channel := s.channelFor destination
  (if (s.model.findHub channel.name).isSome || known.contains channel then []
    else [.addChannel channel s.settings.channelType, .bind destination.portRef channel]) ++
  [.bind ⟨source, port⟩ channel]

/-- The operations that connect the component at `source` to destinations in
order.  `known` are the channels of the destinations before them. -/
def connectAll (s : Synthesis) (source : ComponentPath) (known : List ChannelId) :
    List (String × Destination) → Script
  | [] => []
  | (port, destination) :: rest =>
    s.connect source known port destination ++
      s.connectAll source (known ++ [s.channelFor destination]) rest

/-- The operations that bind the ports of the component at `source`. -/
def bindPorts (s : Synthesis) (source : ComponentPath) (bindings : PortBindings) :
    Except Failure Script :=
  match readPairs (tokenPairs bindings) with
  | .error failure => .error failure
  | .ok pairs => .ok (s.connectAll source [] pairs)

/-- The binding specifications among the attributes, by key. -/
def specs (s : Synthesis) (c : Component) : List String :=
  (c.bindingAttributes s.settings.bindingPrefix).map (·.2)

/-- The bindings of a start: the explicit ones, then those of the attributes. -/
def effectiveBindings (s : Synthesis) (c : Component) : Except Failure PortBindings :=
  c.portBindings.fillAll s.model s.node (s.specs c)

/-- The script that starts a component. -/
def startScript (s : Synthesis) (c : Component) : Except Failure Script := do
  c.validate
  let path := c.path s.node
  let bindings ← s.effectiveBindings c
  let connections ← s.bindPorts path bindings
  return .addComponent path c.typeName ::
    (c.plainAttributes s.settings.bindingPrefix).map
      (fun (key, value) => .setAttribute path key value) ++ connections

/-- The notices of making the script that starts a component. -/
def startNotices (s : Synthesis) (c : Component) : List Notice :=
  match c.validate with
  | .error _ => []
  | .ok _ => PortBindings.fillNotices s.model s.node (s.specs c)

/-- The binding specifications under some keys; keys without the prefix and
keys without a value have none. -/
def specsUnder (s : Synthesis) (c : Component) (keys : List String) : List String :=
  (keys.filter (carries s.settings.bindingPrefix)).filterMap c.attributes.get?

/-- The script that binds a component that is there already, according to the
binding specifications under some keys. -/
def bindingScript (s : Synthesis) (c : Component) (keys : List String) :
    Except Failure Script := do
  c.validate
  let bindings ← PortBindings.fillAll .empty s.model s.node (s.specsUnder c keys)
  s.bindPorts (c.path s.node) bindings

/-- The notices of making a script that binds a component. -/
def bindingNotices (s : Synthesis) (c : Component) (keys : List String) : List Notice :=
  match c.validate with
  | .error _ => []
  | .ok _ => PortBindings.fillNotices s.model s.node (s.specsUnder c keys)

/-- The first occurrence of each element. -/
def firsts {α : Type} [DecidableEq α] (seen : List α) : List α → List α
  | [] => []
  | a :: rest => if seen.contains a then firsts seen rest else a :: firsts (a :: seen) rest

/-- The script that removes all instances of some types from the node. -/
def stopByTypeScript (s : Synthesis) (types : List String) : Script :=
  (firsts [] (types.flatMap fun typeName => s.model.runningOn typeName s.node)).map .remove

/-- The address of a component of the node. -/
def localPath (s : Synthesis) (id : String) : Except Failure ComponentPath :=
  if isBlankText id then .error (.notFound (.idOnNode s.node)) else .ok ⟨s.node, id⟩

/-- The script that removes a component from the node. -/
def removeScript (s : Synthesis) (id : String) : Except Failure Script := do
  let path ← s.localPath id
  return [.remove path]

/-- The script that assigns an attribute of a component of the node. -/
def updateScript (s : Synthesis) (id key value : String) : Except Failure Script := do
  let path ← s.localPath id
  if key = "" then throw (.notFound (.attributeOf path))
  return [.setAttribute path key value]

end Synthesis

end Wiring
