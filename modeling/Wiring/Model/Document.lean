import Wiring.Document
import Wiring.Model

/-!
# The document of a model

A model is written with all its fields.  When it is read, names, lists, versions and
defaults may be missing; the names and types of instances, channels and attributes
may not.
-/

namespace Wiring

open Json (Decoder text textOrNull record fields)

/-! ## Writing -/

/-- The document of an instance. -/
def Instance.encode (c : Instance) : Json :=
  record [("name", text c.name), ("type_definition", text c.typeName)]

/-- The document of a node. -/
def Node.encode (n : Node) : Json :=
  record [("name", text n.name), ("components", .array (n.components.map Instance.encode))]

/-- The document of a declared attribute. -/
def Attribute.encode (a : Attribute) : Json :=
  record [("name", text a.name), ("default_value", textOrNull a.default?)]

/-- The document of a type declaration. -/
def TypeDefinition.encode (t : TypeDefinition) : Json :=
  record [("name", text t.name), ("version", textOrNull t.version?),
    ("dictionary", .array (t.dictionary.map Attribute.encode))]

mutual

/-- The document of a package. -/
def Package.encode : Package → Json
  | ⟨name, packages, types⟩ =>
    record [("name", text name), ("packages", .array (Package.encodeAll packages)),
      ("type_definitions", .array (types.map TypeDefinition.encode))]

/-- The documents of packages. -/
def Package.encodeAll : List Package → List Json
  | [] => []
  | package :: rest => package.encode :: Package.encodeAll rest

end

/-- The document of a channel. -/
def Hub.encode (h : Hub) : Json :=
  record [("name", text h.name), ("type_definition", text h.typeName)]

/-- The document of a model. -/
def Model.encode (m : Model) : Json :=
  record [("nodes", .array (m.nodes.map Node.encode)),
    ("packages", .array (Package.encodeAll m.packages)),
    ("hubs", .array (m.hubs.map Hub.encode))]

/-! ## Reading -/

/-- Read an instance. -/
def Instance.decode : Decoder Instance := fun room value => do
  let f ← fields ["name", "type_definition"] 2 room value
  return ⟨← f.get "name" .text, ← f.get "type_definition" .text⟩

/-- Read a node. -/
def Node.decode : Decoder Node := fun room value => do
  let f ← fields ["name", "components"] 0 room value
  return ⟨← f.getD "name" .text "", ← f.getD "components" (.list Instance.decode) []⟩

/-- Read a declared attribute. -/
def Attribute.decode : Decoder Attribute := fun room value => do
  let f ← fields ["name", "default_value"] 1 room value
  return ⟨← f.get "name" .text, ← f.getD "default_value" (.nullable .text) none⟩

/-- Read a type declaration. -/
def TypeDefinition.decode : Decoder TypeDefinition := fun room value => do
  let f ← fields ["name", "version", "dictionary"] 0 room value
  return ⟨← f.getD "name" .text "", ← f.getD "version" (.nullable .text) none,
    ← f.getD "dictionary" (.list Attribute.decode) []⟩

/-- Read a package.  Its nested packages have two levels of containers less. -/
def Package.decode (room : Nat) (value : Json) : Option Package :=
  match room with
  | 0 => none
  | room + 1 => do
    let f ← fields ["name", "packages", "type_definitions"] 0 (room + 1) value
    let nested ← f.getD "packages" (.list fun _ item => some item) []
    return ⟨← f.getD "name" .text "",
      ← Decoder.all (fun item => Package.decode (room - 1) item) nested,
      ← f.getD "type_definitions" (.list TypeDefinition.decode) []⟩
termination_by room

/-- Read a channel. -/
def Hub.decode : Decoder Hub := fun room value => do
  let f ← fields ["name", "type_definition"] 2 room value
  return ⟨← f.get "name" .text, ← f.get "type_definition" .text⟩

/-- Read a model. -/
def Model.decode : Decoder Model := fun room value => do
  let f ← fields ["nodes", "packages", "hubs"] 0 room value
  return ⟨← f.getD "nodes" (.list Node.decode) [],
    ← f.getD "packages" (.list Package.decode) [],
    ← f.getD "hubs" (.list Hub.decode) []⟩

instance : Document Model := ⟨Model.encode, Model.decode⟩

end Wiring
