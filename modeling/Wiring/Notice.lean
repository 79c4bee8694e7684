import Wiring.Failure

/-!
# Notices

What a linker reports besides the outcome of a request: oddities that do not
make it fail, and the reasons behind a failure.  A notice is logged with a level,
a fixed message, and fields.
-/

namespace Wiring

/-- The levels of notices. -/
inductive Level where
  | warning
  | error
deriving DecidableEq, Repr

/-- The name of a level in the log. -/
def Level.name : Level → String
  | .warning => "WARN"
  | .error => "ERROR"

/-- Something worth logging. -/
inductive Notice where
  /-- The type of a component to start is not declared in the model. -/
  | typeUnknown (typeName id : String)
  /-- No component of the type of a binding entry runs on the node. -/
  | noDestination (port typeRef node : String)
  /-- A component to stop is not in the model. -/
  | notRunning (id : String)
  /-- A pushed script would not apply to the current model. -/
  | pushMayNotApply (failure : Failure)
  /-- A pushed text is no script. -/
  | pushDoesNotParse (failure : Failure)
  | scriptRejected (operation : Operation)
  | outcomeLost (operation : Operation)
  /-- The type of a started component is still not declared. -/
  | typeStillUnknown (id typeName : String)
  | defaultsNotApplied (id : String) (failure : Failure)
  /-- A script could not be written to the spool directory. -/
  | notSpooled (failure : Failure)
  | lagged (missed : Nat)
deriving DecidableEq, Repr

namespace Notice

/-- The level of a notice. -/
def level : Notice → Level
  | .typeUnknown _ _ | .noDestination _ _ _ | .notRunning _ | .pushMayNotApply _
  | .pushDoesNotParse _ | .lagged _ => .warning
  | .scriptRejected _ | .outcomeLost _ | .typeStillUnknown _ _ | .defaultsNotApplied _ _
  | .notSpooled _ => .error

/-- The message of a notice. -/
def message : Notice → String
  | .typeUnknown _ _ => "type definition not found, using requested attributes only"
  | .noDestination _ _ _ => "no running destination for binding"
  | .notRunning _ => "component not in current model, submitting removal anyway"
  | .pushMayNotApply _ => "pushed script may not apply"
  | .pushDoesNotParse _ => "pushed script does not parse"
  | .scriptRejected _ => "script rejected by apply engine"
  | .outcomeLost _ => "script outcome lost"
  | .typeStillUnknown _ _ =>
    "type definition still unknown after start, default bindings not applied"
  | .defaultsNotApplied _ _ => "default bindings not applied"
  | .notSpooled _ => "failed to spool script"
  | .lagged _ => "event listener lagged, events dropped"

/-- The fields of a notice, as texts. -/
def fields : Notice → List (String × String)
  | .typeUnknown typeName id => [("component_type", typeName), ("id", id)]
  | .noDestination port typeRef node =>
    [("port", port), ("type_ref", typeRef), ("node", node)]
  | .notRunning id => [("id", id)]
  | .pushMayNotApply failure | .pushDoesNotParse failure | .notSpooled failure =>
    [("error", failure.message)]
  | .scriptRejected operation => [("operation", operation.name)]
  | .outcomeLost operation =>
    [("operation", operation.name), ("error", (Failure.abandoned operation).message)]
  | .typeStillUnknown id typeName => [("id", id), ("component_type", typeName)]
  | .defaultsNotApplied id failure => [("id", id), ("error", failure.message)]
  | .lagged missed => [("missed", toString missed)]

end Notice

end Wiring
