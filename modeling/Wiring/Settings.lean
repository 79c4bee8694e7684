import Wiring.Failure
import Wiring.Text.Blank

/-!
# Settings of a linker

The node a linker works for, the type of the channels it creates, and the
prefix that marks the attributes with binding entries.  The node and the channel
type end up in script lines, so neither may be empty or hold white space or a
dot.  The description and the source path only tell what the service is.
-/

namespace Wiring

open Wiring.Text

/-- The settings of a linker. -/
structure Settings where
  nodeName : String := "node0"
  channelType : String := "AsyncBroadcast"
  bindingPrefix : String := "binding"
  /-- What the service does, for people. -/
  description : String :=
    "Automate the deployment of Active Home components on the component model."
  source : String := "/active-home-linker"
deriving DecidableEq, Repr, Inhabited

namespace Settings

/-- The default settings for a node. -/
def forNode (name : String) : Settings := { nodeName := name }

/-- A character that a name in a script line must not have. -/
def breaksLine (c : Char) : Bool := isBlank c || c = '.'

/-- Check one of the names that end up in script lines. -/
def checkName (field value : String) : Except Failure Unit :=
  if value = "" then .error (.invalidSettings (.empty field))
  else if value.toList.any breaksLine then
    .error (.invalidSettings (.unusable field value))
  else .ok ()

/-- Check that scripts made with the settings can be written. -/
def validate (settings : Settings) : Except Failure Unit := do
  checkName "node_name" settings.nodeName
  checkName "channel_type" settings.channelType
  if settings.bindingPrefix = "" then
    throw (.invalidSettings (.empty "binding_prefix"))

end Settings

end Wiring
