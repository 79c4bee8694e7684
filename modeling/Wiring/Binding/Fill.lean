import Wiring.Binding
import Wiring.Model.Lookup
import Wiring.Notice
import Wiring.Table

/-!
# From binding entries to destinations

An entry leads to every running instance of its type on one node, in the order
in which the node lists them.  The destinations are collected per port of the
component that is started, in the order of the entries; a port that an entry
names is listed even when nothing runs that it could lead to.

A specification is read as a whole before anything is collected, so a malformed
one leaves the collection as it was.
-/

namespace Wiring

/-- Destination tokens per port. -/
abbrev PortBindings := Table (List String)

namespace BindingEntry

/-- The destination tokens of an entry on a node. -/
def destinations (entry : BindingEntry) (model : Model) (node : String) : List String :=
  (model.runningOn entry.typeRef node).map fun path => path.member entry.destPort

/-- Collect the destinations of entries. -/
def collect (model : Model) (node : String) (map : PortBindings)
    (entries : List BindingEntry) : PortBindings :=
  entries.foldl
    (fun map entry => map.append entry.sourcePort (entry.destinations model node)) map

/-- The notices about entries that lead nowhere. -/
def unmet (model : Model) (node : String) (entries : List BindingEntry) : List Notice :=
  (entries.filter fun entry => (entry.destinations model node).isEmpty).map
    fun entry => .noDestination entry.sourcePort entry.typeRef node

end BindingEntry

namespace PortBindings

/-- Collect the destinations of a specification. -/
def fill (map : PortBindings) (model : Model) (node spec : String) :
    Except Failure PortBindings :=
  match BindingEntry.parseSpec spec with
  | .error failure => .error failure
  | .ok entries => .ok (BindingEntry.collect model node map entries)

/-- Collect the destinations of several specifications in order, up to the
first malformed one. -/
def fillAll (map : PortBindings) (model : Model) (node : String) :
    List String → Except Failure PortBindings
  | [] => .ok map
  | spec :: specs =>
    match map.fill model node spec with
    | .error failure => .error failure
    | .ok map => map.fillAll model node specs

/-- The notices of collecting the destinations of several specifications; none
come from a malformed one or those after it. -/
def fillNotices (model : Model) (node : String) : List String → List Notice
  | [] => []
  | spec :: specs =>
    match BindingEntry.parseSpec spec with
    | .error _ => []
    | .ok entries => BindingEntry.unmet model node entries ++ fillNotices model node specs

end PortBindings

end Wiring
