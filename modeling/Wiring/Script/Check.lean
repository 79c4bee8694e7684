import Wiring.Failure
import Wiring.Model.Lookup
import Wiring.Script.Graph

/-!
# Checking a script against a model

A script passes when it creates nothing twice, creates nothing that the model
has, uses what it creates only afterwards, and uses nothing else that the model
lacks.  The four conditions are examined in this order, each over the whole
script, and the first violation found is the failure.  Its line is the position
of the operation, from one.
-/

namespace Wiring.Script

/-- The violations of each condition, the conditions in their order. -/
def violations (script : Script) (model : Model) : List (Nat × ScriptFault) :=
  (script.duplicates.map fun (i, target) => (i, .addedTwice target)) ++
  ((script.created.filter fun (_, target) => model.has target).map
    fun (i, target) => (i, .alreadyPresent target)) ++
  ((script.misordered.mergeSort fun a b => a.user ≤ b.user).map
    fun edge => (edge.user, .usedBeforeAdded edge.target (edge.creator + 1))) ++
  ((script.external.filter fun (_, target) => !model.has target).map
    fun (i, target) => (i, .unknown target))

/-- Check that a script can be applied to a model as it is written. -/
def check (script : Script) (model : Model) : Except Failure Unit :=
  match script.violations model with
  | [] => .ok ()
  | (i, fault) :: _ => .error (.invalidScript (i + 1) fault)

end Wiring.Script
