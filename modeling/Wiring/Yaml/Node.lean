/-!
# What a YAML document says

A document is a node: a scalar, a list or a mapping.  A node may have a number, and a
reference says that the node of that number stands here again.  If a number has been
given to several nodes, the last one of the document has it.
-/

namespace Wiring.Yaml

/-- A node of a document. -/
inductive Node where
  /-- A scalar with its text; a plain one is written without quotes or marks. -/
  | scalar (isPlain : Bool) (text : String)
  | list (items : List Node)
  /-- A mapping; any node may be a key. -/
  | mapping (entries : List (Node × Node))
  | reference (number : Nat)
  | numbered (number : Nat) (node : Node)

namespace Node

/-- The node that stands where nothing is written. -/
def empty : Node := .scalar true ""

/-- A node with a number, if there is one. -/
def withNumber (number? : Option Nat) (node : Node) : Node :=
  match number? with
  | none => node
  | some number => .numbered number node

mutual

/-- The nodes of a number inside a node, in the order of their begins. -/
def allNumbered (number : Nat) : Node → List Node
  | .scalar _ _ | .reference _ => []
  | .list items => allNumberedIn number items
  | .mapping entries => allNumberedAmong number entries
  | .numbered own node =>
    if own = number then node :: allNumbered number node else allNumbered number node

/-- The nodes of a number inside the items of a list. -/
def allNumberedIn (number : Nat) : List Node → List Node
  | [] => []
  | item :: rest => allNumbered number item ++ allNumberedIn number rest

/-- The nodes of a number inside the entries of a mapping. -/
def allNumberedAmong (number : Nat) : List (Node × Node) → List Node
  | [] => []
  | (key, value) :: rest =>
    allNumbered number key ++ allNumbered number value ++ allNumberedAmong number rest

end

/-- The text of a scalar that stands in a document, itself or by a reference. -/
def text? (document : Node) : Node → Option String
  | .scalar _ text => some text
  | .list _ | .mapping _ => none
  | .numbered _ node => text? document node
  | .reference number =>
    match (document.allNumbered number).getLast? with
    | some (.scalar _ text) => some text
    | _ => none

/-- The entries of a mapping; where nothing is written there are none. -/
def entries? : Node → Option (List (Node × Node))
  | .scalar isPlain text => if isPlain && text = "" then some [] else none
  | .list _ | .reference _ => none
  | .mapping entries => some entries
  | .numbered _ node => node.entries?

end Node

end Wiring.Yaml
