import Wiring.Component.Defaults
import Wiring.Event
import Wiring.Script.Check
import Wiring.Script.Parse
import Wiring.Synthesis

/-!
# Requests

What can be asked of a linker, and what a linker keeps in mind about a script
that it has handed over: which failure a rejection is, and whether bindings are
to follow.
-/

namespace Wiring

open Wiring.Text

/-- A request to a linker. -/
inductive Request where
  | start (component : Component)
  | stopByType (types : List String)
  | stop (id : String)
  | update (id key value : String)
  | push (text : String)
deriving DecidableEq, Repr

/-- A script for the apply engine, with what to do about the answer. -/
structure Submission where
  operation : Operation
  /-- The component that the request is about, if it is about one. -/
  component? : Option String
  text : String
  lines : Nat
  /-- The failure of the request when the script is rejected. -/
  rejection : Rejection
  /-- The started component whose type was unknown, if one was started: when
  the script is applied, the bindings of its type follow. -/
  deferred? : Option Component := none
deriving DecidableEq, Repr

namespace Submission

/-- The submission of a script. -/
def ofScript (operation : Operation) (component? : Option String) (script : Script)
    (rejection : Rejection) (deferred? : Option Component := none) : Submission :=
  ⟨operation, component?, script.text, script.length, rejection, deferred?⟩

end Submission

/-! ## Starts -/

/-- What a start of a component comes to in a state of the model. -/
inductive StartPlan where
  | running
  /-- A script is to be submitted; the type was found or not. -/
  | script (script : Script) (typeResolved : Bool)
deriving DecidableEq, Repr

namespace Synthesis

/-- Whether an id is in use on the node. -/
def isRunning (s : Synthesis) (id : String) : Bool :=
  (s.model.findComponent s.node id).isSome

/-- Plan the start of a component, which must have been validated. -/
def planStart (s : Synthesis) (c : Component) : Except Failure StartPlan :=
  if s.isRunning c.id then .ok .running
  else
    let resolution := c.resolve s.model
    match s.startScript resolution.component with
    | .error failure => .error failure
    | .ok script => .ok (.script script resolution.typeResolved)

/-- The notices of planning the start of a component. -/
def planStartNotices (s : Synthesis) (c : Component) : List Notice :=
  if s.isRunning c.id then []
  else c.resolveNotices s.model ++ s.startNotices (c.resolve s.model).component

/-- The script that a start request would submit, without submitting it;
nothing when the id is in use already.  It is made apart from `planStart`, which
a start goes through when it has its turn. -/
def plan (s : Synthesis) (c : Component) : Except Failure (Option Script) := do
  c.validate
  if (s.model.findComponent s.node c.id).isSome then return none
  let script ← s.startScript (c.resolve s.model).component
  return some script

/-- The notices of planning a start request. -/
def planNotices (s : Synthesis) (c : Component) : List Notice :=
  match c.validate with
  | .error _ => []
  | .ok _ =>
    if (s.model.findComponent s.node c.id).isSome then []
    else c.resolveNotices s.model ++ s.startNotices (c.resolve s.model).component

/-- What is to be done about the bindings of a started component whose type was
unknown when it was started. -/
inductive DeferredPlan where
  | nothing
  | script (script : Script)
deriving DecidableEq, Repr

/-- The keys of the defaults that are binding specifications. -/
def defaultedBindingKeys (s : Synthesis) (r : Resolution) : List String :=
  r.defaulted.filter (carries s.settings.bindingPrefix)

/-- Plan the bindings that the type of a started component declares.  A type
that is still unknown, or defaults that are malformed, leave the component
unbound. -/
def planDeferred (s : Synthesis) (c : Component) : DeferredPlan :=
  let resolution := c.resolve s.model
  if !resolution.typeResolved then .nothing
  else
    match s.bindingScript resolution.component (s.defaultedBindingKeys resolution) with
    | .error _ => .nothing
    | .ok script => if script = [] then .nothing else .script script

/-- The notices of planning the bindings of a started component. -/
def planDeferredNotices (s : Synthesis) (c : Component) : List Notice :=
  let resolution := c.resolve s.model
  let keys := s.defaultedBindingKeys resolution
  c.resolveNotices s.model ++
    if !resolution.typeResolved then [.typeStillUnknown c.id c.typeName]
    else
      s.bindingNotices resolution.component keys ++
        match s.bindingScript resolution.component keys with
        | .error failure => [.defaultsNotApplied c.id failure]
        | .ok _ => []

/-! ## Pushed scripts -/

/-- The number of lines of a text that are not blank. -/
def countLines (text : String) : Nat :=
  (lines text.toList).countP fun line => !line.all isBlank

/-- The notices about a pushed text. -/
def pushNotices (s : Synthesis) (text : String) : List Notice :=
  match Script.parse text with
  | .error failure => [.pushDoesNotParse failure]
  | .ok script =>
    match script.check s.model with
    | .error failure => [.pushMayNotApply failure]
    | .ok _ => []

end Synthesis

end Wiring
