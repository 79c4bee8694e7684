import Wiring.Model
import Wiring.Script.Parse

/-!
# Apply engines

A linker hands the text of each script to an apply engine, which decides on it
when it receives it and acts on it later.  `Engine` is what a linker knows of
one.  A `Plant` is an engine that holds the model in memory: it takes its
verdicts from a list, applies what it accepts operation by operation, and with
each accepted script a package may arrive in the model.
-/

namespace Wiring

/-- What an apply engine decides about a script. -/
inductive Verdict where
  /-- The script is applied, and the linker is told so. -/
  | accept
  /-- The script is not applied, and the linker is told so. -/
  | reject
  /-- The script is not applied, and the linker hears nothing. -/
  | drop
deriving DecidableEq, Repr

/-- An apply engine with states of type `σ`. -/
structure Engine (σ : Type) where
  model : σ → Model
  /-- Receive the text of a script and decide on it. -/
  receive : σ → String → Verdict × σ
  act : σ → String → Verdict → σ

/-! ## The engine in memory -/

namespace Model

/-- Change the first node of a name; without such a node nothing changes. -/
def updateNode (m : Model) (name : String) (change : Node → Node) : Model :=
  { m with nodes := go m.nodes }
where
  /-- Change the first node of the name in a list. -/
  go : List Node → List Node
    | [] => []
    | node :: rest => if node.name = name then change node :: rest else node :: go rest

/-- Apply one operation.  Assignments and connections leave the document as it
is, since it does not list attribute values or bindings. -/
def applyOp (m : Model) : Op → Model
  | .addComponent path typeName =>
    m.updateNode path.node fun node =>
      { node with components := node.components ++ [⟨path.id, typeName⟩] }
  | .addChannel channel typeName => { m with hubs := m.hubs ++ [⟨channel.name, typeName⟩] }
  | .remove path =>
    m.updateNode path.node fun node =>
      { node with components := node.components.filter fun c => c.name ≠ path.id }
  | .setAttribute _ _ _ | .bind _ _ => m

/-- Apply the operations of a script in order. -/
def applyScript (m : Model) (script : Script) : Model := script.foldl applyOp m

/-- Apply the text of a script; a text that is no script changes nothing. -/
def applyText (m : Model) (text : String) : Model :=
  match Script.parse text with
  | .error _ => m
  | .ok script => m.applyScript script

end Model

/-- The state of an engine in memory. -/
structure Plant where
  model : Model := {}
  /-- The next verdicts; when there are none left, scripts are accepted. -/
  verdicts : List Verdict := []
  /-- The packages to arrive, one with each accepted script. -/
  arriving : List Package := []
deriving Repr

namespace Plant

/-- Take the next verdict for a script. -/
def receive (plant : Plant) (_text : String) : Verdict × Plant :=
  match plant.verdicts with
  | [] => (.accept, plant)
  | verdict :: rest => (verdict, { plant with verdicts := rest })

/-- Apply an accepted script, and let the next package arrive with it. -/
def act (plant : Plant) (text : String) : Verdict → Plant
  | .accept =>
    { plant with
      model :=
        let model := plant.model.applyText text
        { model with packages := model.packages ++ plant.arriving.take 1 }
      arriving := plant.arriving.drop 1 }
  | .reject | .drop => plant

/-- The engine in memory. -/
def engine : Engine Plant := ⟨model, receive, act⟩

end Plant

end Wiring
