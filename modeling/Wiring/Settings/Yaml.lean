import Wiring.Settings
import Wiring.Yaml.Read

/-!
# The settings file

A settings file is a YAML mapping.  Each field may stand in it once, with a scalar
that is taken as a text whatever it looks like; the values of unknown keys do not
count.  What the file does not give has its default, and the result is validated.
-/

namespace Wiring.Settings

/-- The values of a field among entries. -/
def valuesOf (entries : List (String × Yaml.Node)) (field : String) : List Yaml.Node :=
  (entries.filter fun entry => entry.1 = field).map (·.2)

/-- The text of a field, or its default; nothing when the field stands twice or is
no scalar. -/
def fieldOr (document : Yaml.Node) (entries : List (String × Yaml.Node)) (field default : String) :
    Option String :=
  match valuesOf entries field with
  | [] => some default
  | [value] => document.text? value
  | _ => none

/-- The entries of a document whose keys are all scalars. -/
def entriesOf (document : Yaml.Node) : Option (List (String × Yaml.Node)) := do
  (← document.entries?).mapM fun (key, value) => do return (← document.text? key, value)

/-- The settings that a document gives. -/
def ofDocument? (document : Yaml.Node) : Option Settings := do
  let entries ← entriesOf document
  let d : Settings := {}
  return {
    nodeName := ← fieldOr document entries "node_name" d.nodeName
    channelType := ← fieldOr document entries "channel_type" d.channelType
    bindingPrefix := ← fieldOr document entries "binding_prefix" d.bindingPrefix
    description := ← fieldOr document entries "description" d.description
    source := ← fieldOr document entries "src" d.source }

/-- Read a settings file.  A text without a document gives nothing but defaults. -/
def read (text : String) : Except Failure Settings := do
  match (Yaml.read text).bind fun document? => ofDocument? (document?.getD .empty) with
  | none => throw (.invalidSettings .unreadable)
  | some settings =>
    settings.validate
    return settings

end Wiring.Settings
