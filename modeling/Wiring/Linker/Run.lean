import Wiring.Linker.Load

/-!
# Running a linker

Tasks are run in passes: a pass goes through the tasks in order and carries each
on as far as it gets.  When a pass changes nothing, one of the scripts that wait
for an answer is completed, the oldest or the newest, and the passes begin again.
The run ends when no script waits any more.

A run ends because every step lowers the load of the linker, and so does every
completed script.
-/

namespace Wiring

/-- Which of the waiting scripts is completed first. -/
inductive Completion where
  | fifo
  | lifo
deriving DecidableEq, Repr

namespace Linker

variable {σ : Type}

/-- Carry a task on as far as it gets. -/
def poll (e : Engine σ) (l : Linker σ) (task : Nat) : Linker σ :=
  match _hstep : l.step e task with
  | none => l
  | some next => next.poll e task
termination_by l.load
decreasing_by exact load_lt_of_step _hstep

/-- Carry every task on as far as it gets, in order. -/
def pass (e : Engine σ) (l : Linker σ) : Linker σ :=
  (List.range l.tasks.length).foldl (fun l task => l.poll e task) l

/-- Repeat passes until one changes nothing. -/
def settle (e : Engine σ) (l : Linker σ) : Linker σ :=
  if (l.pass e).load < l.load then (l.pass e).settle e else l
termination_by l.load

/-- The task whose script is completed next. -/
def nextCompletion (l : Linker σ) : Completion → Option Nat
  | .fifo => l.held.head?.map (·.task)
  | .lifo => l.held.getLast?.map (·.task)

/-- Run until no script waits for an answer. -/
def run (e : Engine σ) (completion : Completion) (l : Linker σ) : Linker σ :=
  let settled := l.settle e
  match settled.nextCompletion completion with
  | none => settled
  | some task =>
    let next := settled.complete e task
    if next.load < l.load then next.run e completion else next
termination_by l.load

/-- Add requests as new tasks. -/
def ask (l : Linker σ) (requests : List Request) : Linker σ :=
  { l with tasks := l.tasks ++ requests.map fun request => { request } }

/-- Plan a start without asking for it: the script that it would submit, nothing when the id
is in use already.  The notices name the task that the start would be. -/
def plan (e : Engine σ) (l : Linker σ) (c : Component) :
    Except Failure (Option Script) × Linker σ :=
  let s := l.synthesis e
  (s.plan c, l.note l.tasks.length (s.planNotices c))

/-- The result of a task, once it is finished. -/
def result? (l : Linker σ) (task : Nat) : Option (Except Failure Bool) :=
  match l.tasks[task]? with
  | some ⟨_, .finished result⟩ => some result
  | _ => none

end Linker

end Wiring
