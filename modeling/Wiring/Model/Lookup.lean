import Wiring.Address
import Wiring.Model
import Wiring.TypeName

/-!
# Questions to a model

Where several entries have one name, the first counts, except among the types
of a package, where the last declaration counts: a later version replaces an
earlier one.
-/

namespace Wiring

open Wiring.Text

namespace Model

/-- The first node of a name. -/
def findNode (m : Model) (name : String) : Option Node :=
  m.nodes.find? fun node => node.name = name

/-- The instances of a node; an unknown node has none. -/
def components (m : Model) (node : String) : List Instance :=
  match m.findNode node with
  | none => []
  | some found => found.components

/-- The first instance of an id on a node. -/
def findComponent (m : Model) (node id : String) : Option Instance :=
  (m.components node).find? fun component => component.name = id

/-- The first channel of an id. -/
def findHub (m : Model) (id : String) : Option Hub :=
  m.hubs.find? fun hub => hub.name = id

end Model

namespace Package

/-- The first package of a name in a list of siblings. -/
def among (siblings : List Package) (name : String) : Option Package :=
  siblings.find? fun package => package.name = name

/-- Walk down from a list of siblings, one segment at a time. -/
def walk (siblings : List Package) (first : String) : List String → Option Package
  | [] => among siblings first
  | next :: segments => do
    let package ← among siblings first
    walk package.packages next segments

/-- The last declaration of a simple name directly in a package. -/
def findType (package : Package) (simple : String) : Option TypeDefinition :=
  package.types.reverse.find? fun definition => definition.name = simple

end Package

namespace Model

/-- The package at a dotted path.  A path whose first segment is empty, the
empty path among them, leads nowhere; later segments are looked up as they
stand. -/
def findPackage (m : Model) (path : String) : Option Package :=
  match (fields '.' path.toList).map String.ofList with
  | [] => none
  | first :: segments =>
    if first = "" then none else Package.walk m.packages first segments

/-- The declaration of a type name, found through its package. -/
def findType (m : Model) (typeName : String) : Option TypeDefinition := do
  let name := TypeName.parse typeName
  let package ← m.findPackage name.package
  package.findType name.simple

/-- The instances of a type on one node, by simple type name, in the order in
which the node lists them. -/
def runningOn (m : Model) (typeName : String) (node : String) : List ComponentPath :=
  let wanted := TypeName.parse typeName
  ((m.components node).filter fun component =>
      (TypeName.parse component.typeName).sameSimple wanted).map
    fun component => ⟨node, component.name⟩

/-- The instances of a type on several nodes, in the order of the nodes. -/
def running (m : Model) (typeName : String) (nodes : List String) : List ComponentPath :=
  nodes.flatMap (m.runningOn typeName)

/-- Whether the model has a component or a channel. -/
def has (m : Model) : Target → Bool
  | .component path => (m.findComponent path.node path.id).isSome
  | .channel id => (m.findHub id.name).isSome

end Model

end Wiring
