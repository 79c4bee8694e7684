/-!
# Addresses

How components, their ports and attributes, and the channels between them are
named.  A component is addressed by its node and its id, a port or an attribute
by one more name after that, and a channel by an id of its own.  The channel
that relays bindings into a port has an id derived from that port, so all
bindings into one port from one node share a channel.
-/

namespace Wiring

/-- The address of a component instance. -/
structure ComponentPath where
  node : String
  /-- The id of the instance, unique on its node. -/
  id : String
deriving DecidableEq, Repr, Inhabited

/-- The text of an address, the node first. -/
def ComponentPath.text (path : ComponentPath) : String :=
  path.node ++ "." ++ path.id

/-- The text of the address of a port or an attribute of the component. -/
def ComponentPath.member (path : ComponentPath) (name : String) : String :=
  path.text ++ "." ++ name

/-- A port of a component instance. -/
structure PortRef where
  component : ComponentPath
  port : String
deriving DecidableEq, Repr, Inhabited

/-- The text of a port address. -/
def PortRef.text (ref : PortRef) : String :=
  ref.component.member ref.port

/-- The id of a channel. -/
structure ChannelId where
  /-- The id as it is written in scripts and in the model. -/
  name : String
deriving DecidableEq, Repr, Inhabited

/-- The first part of every derived channel id. -/
def ChannelId.derivedPrefix : String := "chan"

/-- The channel for bindings into `port` of `component`, made on `node`. -/
def ChannelId.derive (port node component : String) : ChannelId :=
  ⟨derivedPrefix ++ "_" ++ port ++ "_" ++ node ++ "_" ++ component⟩

/-- Something that an operation of a script creates or uses. -/
inductive Target where
  | component (path : ComponentPath)
  | channel (id : ChannelId)
deriving DecidableEq, Repr

/-- A target as messages name it. -/
def Target.text : Target → String
  | .component path => "component " ++ path.text
  | .channel id => "channel " ++ id.name

end Wiring
