import Wiring.Document
import Wiring.Settings

/-!
# The JSON document of settings

Fields that are missing have their defaults.  Reading does not validate.
-/

namespace Wiring

open Json (Decoder text record fields)

/-- The document of settings. -/
def Settings.encode (s : Settings) : Json :=
  record [("node_name", text s.nodeName), ("channel_type", text s.channelType),
    ("binding_prefix", text s.bindingPrefix), ("description", text s.description),
    ("src", text s.source)]

/-- Read settings. -/
def Settings.decode : Decoder Settings := fun room value => do
  let f ← fields ["node_name", "channel_type", "binding_prefix", "description", "src"] 0 room value
  let d : Settings := {}
  return {
    nodeName := ← f.getD "node_name" .text d.nodeName
    channelType := ← f.getD "channel_type" .text d.channelType
    bindingPrefix := ← f.getD "binding_prefix" .text d.bindingPrefix
    description := ← f.getD "description" .text d.description
    source := ← f.getD "src" .text d.source }

instance : Document Settings := ⟨Settings.encode, Settings.decode⟩

end Wiring
