/-!
# Operations of the linker

What a submitted script is for.  Every request has one operation, except that a
start may have a second script for the bindings its type declares.
-/

namespace Wiring

/-- The purpose of a script. -/
inductive Operation where
  | start
  /-- Bindings that a type declares, applied after a start. -/
  | deferredBinding
  | stopByType
  | stop
  | update
  | push
deriving DecidableEq, Repr

/-- All operations, in the order of their declaration. -/
def Operation.all : List Operation :=
  [.start, .deferredBinding, .stopByType, .stop, .update, .push]

/-- The name of an operation in events, logs and messages. -/
def Operation.name : Operation → String
  | .start => "start"
  | .deferredBinding => "deferred_binding"
  | .stopByType => "stop_by_type"
  | .stop => "stop"
  | .update => "update"
  | .push => "push"

/-- The operation of a name. -/
def Operation.ofName? (name : String) : Option Operation :=
  Operation.all.find? fun operation => operation.name = name

theorem Operation.ofName?_name (operation : Operation) :
    Operation.ofName? operation.name = some operation := by
  cases operation <;> decide

end Wiring
