import Wiring.Linker.Plant
import Wiring.Linker.Request
import Wiring.Turns

/-!
# The linker, step by step

A linker works on any number of requests at once.  Each request is a task in
one of four phases: nothing done yet, in line for the turn on its component id,
waiting for the answer to a script, finished.  A start joins the line before it
looks at the model; a stop and an update make their script first and join the
line with it; removals by type and pushed scripts need no turn.  A task keeps its
turn until it is finished.

`step` carries one task on to its next phase, if anything is left for it to do
without waiting.  `act` lets the apply engine act on a script that it has
received, and `answer` tells the task about it.  Steps of different tasks may be
taken in any order; one step is not interrupted by another.

Tasks are named by their positions in the list of tasks, and events and notices
name a task in the same way.
-/

namespace Wiring

/-- Where a task stands. -/
inductive Phase where
  | asked
  /-- The task is in line for its turn; it may have its script already. -/
  | inLine (script? : Option Submission)
  /-- A script is with the apply engine; the answer may have come already. -/
  | submitted (submission : Submission) (answer? : Option Verdict)
  /-- The task is done: it failed, or it submitted something, or nothing. -/
  | finished (result : Except Failure Bool)
deriving Repr

/-- A request that a linker works on. -/
structure Task where
  request : Request
  phase : Phase := .asked
deriving Repr

/-- A script that the apply engine has received and not answered. -/
structure Held where
  task : Nat
  text : String
  verdict : Verdict
  acted : Bool := false
deriving DecidableEq, Repr

/-- A linker at work with an apply engine whose states are of type `σ`. -/
structure Linker (σ : Type) where
  settings : Settings
  engine : σ
  turns : Turns Nat := {}
  tasks : List Task := []
  /-- The scripts that wait for an answer, the oldest first. -/
  held : List Held := []
  scripts : List (Nat × String) := []
  events : List (Event Nat) := []
  notices : List (Nat × Notice) := []

namespace Linker

variable {σ : Type}

/-- Publish an event of a task. -/
def publish (l : Linker σ) (task : Nat) (operation : Operation)
    (component? : Option String) (status : Status) : Linker σ :=
  { l with events := l.events ++ [⟨task, operation, component?, status⟩] }

/-- Give notices about a task. -/
def note (l : Linker σ) (task : Nat) (notices : List Notice) : Linker σ :=
  { l with notices := l.notices ++ notices.map fun notice => (task, notice) }

/-- Set the phase of a task. -/
def setPhase (l : Linker σ) (task : Nat) (phase : Phase) : Linker σ :=
  { l with tasks := l.tasks.modify task fun t => { t with phase } }

/-- Finish a task and give back its turn. -/
def finish (l : Linker σ) (task : Nat) (result : Except Failure Bool) : Linker σ :=
  { l with turns := l.turns.release task }.setPhase task (.finished result)

/-- Finish a task that has nothing to submit. -/
def skip (l : Linker σ) (task : Nat) (operation : Operation) (component? : Option String)
    (reason : String) : Linker σ :=
  (l.publish task operation component? (.skipped reason)).finish task (.ok false)

/-- Put a task in line for the turn on an id. -/
def joinLine (l : Linker σ) (task : Nat) (id : String) (script? : Option Submission) :
    Linker σ :=
  { l with turns := l.turns.acquire task id }.setPhase task (.inLine script?)

/-- What scripts are made with at present. -/
def synthesis (e : Engine σ) (l : Linker σ) : Synthesis := ⟨e.model l.engine, l.settings⟩

/-- Hand a script to the apply engine. -/
def submit (e : Engine σ) (l : Linker σ) (task : Nat) (s : Submission) : Linker σ :=
  let l := l.publish task s.operation s.component? (.submitted s.lines)
  let received := e.receive l.engine s.text
  { l with
    engine := received.2
    held := l.held ++ [{ task, text := s.text, verdict := received.1 }]
    scripts := l.scripts ++ [(task, s.text)] : Linker σ }.setPhase task (.submitted s none)

/-! ## The steps of a task -/

/-- The first step of a request. -/
def begin (e : Engine σ) (l : Linker σ) (task : Nat) : Request → Linker σ
  | .start component =>
    match component.validate with
    | .error failure => l.finish task (.error failure)
    | .ok _ => l.joinLine task component.id none
  | .stopByType types =>
    let script := (l.synthesis e).stopByTypeScript types
    if script = [] then l.skip task .stopByType none "nothing running"
    else
      l.submit e task
        (.ofScript .stopByType none script (.removalOfTypes script.length types))
  | .stop id =>
    let s := l.synthesis e
    let l := l.note task (if s.isRunning id then [] else [.notRunning id])
    match s.removeScript id with
    | .error failure => l.finish task (.error failure)
    | .ok script =>
      l.joinLine task id (some (.ofScript .stop (some id) script (.removal ⟨s.node, id⟩)))
  | .update id key value =>
    match (l.synthesis e).updateScript id key value with
    | .error failure => l.finish task (.error failure)
    | .ok script =>
      l.joinLine task id (some (.ofScript .update (some id) script (.update id key)))
  | .push text =>
    let lines := Synthesis.countLines text
    if lines = 0 then l.skip task .push none "empty script"
    else
      (l.note task ((l.synthesis e).pushNotices text)).submit e task
        (⟨.push, none, text, lines, .push, none⟩ : Submission)

/-- The step of a start that has got its turn. -/
def startInTurn (e : Engine σ) (l : Linker σ) (task : Nat) (c : Component) : Linker σ :=
  let s := l.synthesis e
  let l := l.note task (s.planStartNotices c)
  match s.planStart c with
  | .error failure => l.finish task (.error failure)
  | .ok .running => l.skip task .start (some c.id) "already running"
  | .ok (.script script typeResolved) =>
    l.submit e task
      (.ofScript .start (some c.id) script (.start (c.path s.node))
        (if typeResolved then none else some c))

/-- The step after a script was applied: the task is done, unless bindings are
to follow. -/
def afterApplied (e : Engine σ) (l : Linker σ) (task : Nat) : Option Component → Linker σ
  | none => l.finish task (.ok true)
  | some c =>
    let s := l.synthesis e
    let l := l.note task (s.planDeferredNotices c)
    match s.planDeferred c with
    | .nothing => l.finish task (.ok true)
    | .script script =>
      l.submit e task
        (.ofScript .deferredBinding (some c.id) script (.deferredBinding (c.path s.node)))

/-- The step of a task that has got an answer. -/
def heed (e : Engine σ) (l : Linker σ) (task : Nat) (s : Submission) : Verdict → Linker σ
  | .accept =>
    (l.publish task s.operation s.component? .applied).afterApplied e task s.deferred?
  | .reject =>
    ((l.note task [.scriptRejected s.operation]).publish task s.operation s.component?
      .rejected).finish task (.error (.rejected s.rejection))
  | .drop =>
    ((l.note task [.outcomeLost s.operation]).publish task s.operation s.component?
      .abandoned).finish task (.error (.abandoned s.operation))

/-- Carry a task on by one step; nothing when it waits or is finished. -/
def step (e : Engine σ) (l : Linker σ) (task : Nat) : Option (Linker σ) :=
  match l.tasks[task]? with
  | none => none
  | some t =>
    match t.phase with
    | .asked => some (l.begin e task t.request)
    | .inLine script? =>
      if l.turns.holds task then
        match script?, t.request with
        | some s, _ => some (l.submit e task s)
        | none, .start c => some (l.startInTurn e task c)
        | none, _ => none
      else none
    | .submitted s (some verdict) => some (l.heed e task s verdict)
    | .submitted _ none => none
    | .finished _ => none

/-! ## The steps of the apply engine -/

/-- Let the engine act on the script of a task, if it has not yet. -/
def act (e : Engine σ) (l : Linker σ) (task : Nat) : Linker σ :=
  match l.held.find? fun h => h.task = task && !h.acted with
  | none => l
  | some h =>
    { l with
      engine := e.act l.engine h.text h.verdict
      held := l.held.map fun h' => if h'.task = task then { h' with acted := true } else h' }

/-- Tell a task the decision on its script, once the engine has acted on it. -/
def answer (l : Linker σ) (task : Nat) : Linker σ :=
  match l.held.find? fun h => h.task = task && h.acted with
  | none => l
  | some h =>
    { l with
      held := l.held.filter fun h' => h'.task ≠ task
      tasks := l.tasks.modify task fun t =>
        match t.phase with
        | .submitted s none => { t with phase := .submitted s (some h.verdict) }
        | _ => t }

/-- Let the engine act on the script of a task and tell the task. -/
def complete (e : Engine σ) (l : Linker σ) (task : Nat) : Linker σ :=
  (l.act e task).answer task

end Linker

end Wiring
