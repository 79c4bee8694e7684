import Wiring.Script

/-!
# Dependencies inside a script

The operation that first creates a target is joined by an edge to every
operation that uses the target.  Later creations of the same target are
duplicates and have no edges; uses of a target that the script never creates
are external.  Operations are named by their positions, from zero.

Creations use nothing, so every edge runs from a creation to another kind of
operation and the graph has no cycle.
-/

namespace Wiring.Script

/-- The position of the first operation that creates a target. -/
def definer (script : Script) (target : Target) : Option Nat :=
  script.findIdx? fun op => op.creates = some target

/-- The operations with their positions. -/
def numbered (script : Script) : List (Nat × Op) :=
  (List.range script.length).zip script

/-- All creations, by position. -/
def creations (script : Script) : List (Nat × Target) :=
  script.numbered.filterMap fun (i, op) => op.creates.map fun target => (i, target)

/-- All uses, by position, in the order in which an operation lists them. -/
def usages (script : Script) : List (Nat × Target) :=
  script.numbered.flatMap fun (i, op) => op.uses.map fun target => (i, target)

/-- The first creation of each target. -/
def created (script : Script) : List (Nat × Target) :=
  script.creations.filter fun (i, target) => script.definer target = some i

/-- The second and later creations of a target. -/
def duplicates (script : Script) : List (Nat × Target) :=
  script.creations.filter fun (i, target) => script.definer target ≠ some i

/-- The uses of targets that the script does not create. -/
def external (script : Script) : List (Nat × Target) :=
  script.usages.filter fun (_, target) => script.definer target = none

/-- A use of a target with the creation that it depends on. -/
structure Edge where
  creator : Nat
  user : Nat
  target : Target
deriving DecidableEq, Repr

/-- The edges, in the order of the uses. -/
def edges (script : Script) : List Edge :=
  script.usages.filterMap fun (user, target) =>
    (script.definer target).map fun creator => ⟨creator, user, target⟩

/-- The edges whose creation stands after the use. -/
def misordered (script : Script) : List Edge :=
  script.edges.filter fun edge => edge.user < edge.creator

/-! ## The stable order -/

/-- Whether an operation depends on none of the operations that remain. -/
def ready (edges : List Edge) (remaining : List Nat) (i : Nat) : Bool :=
  edges.all fun edge => !(edge.user = i && remaining.contains edge.creator)

/-- Place the remaining operations one at a time, always the first one that is
ready. -/
def place (edges : List Edge) (remaining : List Nat) : List Nat :=
  match _hfound : remaining.find? (ready edges remaining) with
  | none => []
  | some i => i :: place edges (remaining.erase i)
termination_by remaining.length
decreasing_by
  have hmem := List.mem_of_find?_eq_some _hfound
  have hpos := List.length_pos_of_mem hmem
  rw [List.length_erase_of_mem hmem]
  omega

/-- The positions in an order in which each first creation stands before the
uses of its target, and the written order holds otherwise. -/
def stableOrder (script : Script) : List Nat :=
  place script.edges (List.range script.length)

/-- The operations in the stable order. -/
def reorder (script : Script) : Script :=
  script.stableOrder.filterMap fun i => script[i]?

end Wiring.Script
