import Wiring.Proofs.Linker.Play

/-!
# Scripts that the engine received

A linker only remembers the texts that it handed over.  A handover holds the decision of
the engine as well, and the model that it had when it received the script; `handovers`
lists them along a play, in their order.  A step hands over the script that it submits,
`handed_of_submit`, and no other move hands anything over.
-/

namespace Wiring

/-- A script that the engine received, with what it decided on it and the model that it
had by then. -/
structure Handover where
  task : Nat
  text : String
  verdict : Verdict
  model : Model
deriving DecidableEq, Repr

namespace Linker

variable {σ : Type}

/-- What the engine receives in a move. -/
def handed (e : Engine σ) (l : Linker σ) (m : Move) : List Handover :=
  ((l.move e m).scripts.drop l.scripts.length).map fun script =>
    { task := script.1
      text := script.2
      verdict := (e.receive l.engine script.2).1
      model := e.model l.engine }

/-- What the engine receives in a play. -/
def handovers (e : Engine σ) (l : Linker σ) : List Move → List Handover
  | [] => []
  | m :: moves => l.handed e m ++ (l.move e m).handovers e moves

/-- The handovers of one task. -/
def handoversOf (handed : List Handover) (task : Nat) : List Handover :=
  handed.filter fun h => h.task = task

/-- The events of one task. -/
def eventsOf (l : Linker σ) (task : Nat) : List (Event Nat) :=
  l.events.filter fun event => event.request = task

/-- The texts that one task has handed over. -/
def scriptsOf (l : Linker σ) (task : Nat) : List String :=
  (l.scripts.filter fun script => script.1 = task).map (·.2)

/-- A script as the engine receives it from a task. -/
def received (e : Engine σ) (l : Linker σ) (task : Nat) (s : Submission) : Handover where
  task := task
  text := s.text
  verdict := (e.receive l.engine s.text).1
  model := e.model l.engine

/-! ## One move -/

variable {e : Engine σ} {l : Linker σ}

theorem handed_of_scripts_eq {m : Move} (h : (l.move e m).scripts = l.scripts) :
    l.handed e m = [] := by
  rw [handed, h, List.drop_length, List.map_nil]

/-- A step that submits a script hands it over. -/
theorem handed_of_submit {task : Nat} {s : Submission} {events : List (Event Nat)}
    {notices : List (Nat × Notice)}
    (h : l.step e task = some ({ l with events, notices }.submit e task s)) :
    l.handed e (.step task) = [l.received e task s] := by
  have hscripts : (l.move e (.step task)).scripts = l.scripts ++ [(task, s.text)] := by
    rw [move, h, Option.getD_some]
    rfl
  rw [handed, hscripts, List.drop_left]
  rfl

theorem scripts_act (e : Engine σ) (l : Linker σ) (task : Nat) :
    (l.act e task).scripts = l.scripts := by
  cases hnext : l.nextAct? task with
  | none => rw [act_of_none hnext]
  | some h => rw [act_of_some hnext]

/-- An act of the engine leaves all tasks and turns as they are. -/
theorem tasks_act (e : Engine σ) (l : Linker σ) (task : Nat) :
    (l.act e task).tasks = l.tasks ∧ (l.act e task).turns = l.turns := by
  cases hnext : l.nextAct? task with
  | none =>
    rw [act_of_none hnext]
    exact ⟨rfl, rfl⟩
  | some h =>
    rw [act_of_some hnext]
    exact ⟨rfl, rfl⟩

theorem scripts_answer (l : Linker σ) (task : Nat) :
    (l.answer task).scripts = l.scripts := by
  rcases answer_eq l task with heq | ⟨h, -, -, -, heq⟩
  · rw [heq]
  · rw [heq]

theorem turns_answer (l : Linker σ) (task : Nat) : (l.answer task).turns = l.turns := by
  rcases answer_eq l task with heq | ⟨h, -, -, -, heq⟩
  · rw [heq]
  · rw [heq]

end Linker

end Wiring
