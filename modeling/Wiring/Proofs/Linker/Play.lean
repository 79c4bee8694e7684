import Wiring.Linker.Run

/-!
# Moves of a linker

A linker is at the mercy of whoever carries its tasks on and of its engine: a move is
a step of one task, an act of the engine on one script, or one answer.  A play is any
sequence of moves, so it may leave tasks and scripts alone as long as it likes, and a
move that is not possible changes nothing.

What a step can do is said once, in `Acts`, with the events that it publishes and the
result that it comes to, `acts_of_step`.  Where events and results do not matter, `Steps`
says less: a step finishes its task, puts it in line, or submits a script for it,
`steps_of_step`.
-/

namespace Wiring

/-- A task of this phase waits for an answer. -/
def Phase.Waits (phase : Phase) : Prop := ∃ s, phase = .submitted s none

/-- The id whose turn a request takes. -/
def Request.turn? : Request → Option String
  | .start c => some c.id
  | .stop id => some id
  | .update id _ _ => some id
  | .stopByType _ | .push _ => none

/-- The operation that a request asks for. -/
def Request.operation : Request → Operation
  | .start _ => .start
  | .stopByType _ => .stopByType
  | .stop _ => .stop
  | .update _ _ _ => .update
  | .push _ => .push

/-- What becomes of a script by the decision on it. -/
def Verdict.status : Verdict → Status
  | .accept => .applied
  | .reject => .rejected
  | .drop => .abandoned

/-- The event of handing over a script. -/
def Submission.announced (s : Submission) (task : Nat) : Event Nat :=
  ⟨task, s.operation, s.component?, .submitted s.lines⟩

/-- The event of the answer to a script. -/
def Submission.reported (s : Submission) (task : Nat) (verdict : Verdict) : Event Nat :=
  ⟨task, s.operation, s.component?, verdict.status⟩

/-- The result of a request by the answer to its last script. -/
def Submission.outcome (s : Submission) : Verdict → Except Failure Bool
  | .accept => .ok true
  | .reject => .error (.rejected s.rejection)
  | .drop => .error (.abandoned s.operation)

/-- The event of the answer that a task has got and not gone on from. -/
def Task.report (task : Nat) (t : Task) : List (Event Nat) :=
  match t.phase with
  | .submitted s (some verdict) => [s.reported task verdict]
  | _ => []

/-- A task that waits is told the decision on its script. -/
def Task.told (verdict : Verdict) (t : Task) : Task :=
  match t.phase with
  | .submitted s none => { t with phase := .submitted s (some verdict) }
  | _ => t

theorem Task.request_told (verdict : Verdict) (t : Task) :
    (t.told verdict).request = t.request := by
  unfold told
  split <;> rfl

theorem Task.phase_told (verdict : Verdict) (t : Task) :
    (t.told verdict).phase = t.phase ∨
      ∃ s, t.phase = .submitted s none ∧
        (t.told verdict).phase = .submitted s (some verdict) := by
  unfold told
  split
  · rename_i s hphase
    exact Or.inr ⟨s, hphase, rfl⟩
  · exact Or.inl rfl

/-- An accepted script that the engine has not acted on. -/
def Held.IsOpen (h : Held) : Prop := h.verdict = .accept ∧ h.acted = false

instance (h : Held) : Decidable h.IsOpen :=
  inferInstanceAs (Decidable (h.verdict = .accept ∧ h.acted = false))

/-- A script, once the engine has acted on the script of a task. -/
def Held.mark (task : Nat) (h : Held) : Held :=
  if h.task = task then { h with acted := true } else h

theorem Held.task_mark (task : Nat) (h : Held) : (h.mark task).task = h.task := by
  unfold mark
  split <;> rfl

/-- Marking leaves a script alone that is open afterwards. -/
theorem Held.IsOpen.of_mark {task : Nat} {h : Held} (hopen : (h.mark task).IsOpen) :
    h.mark task = h ∧ h.task ≠ task := by
  unfold mark at hopen ⊢
  split at hopen
  · exact absurd hopen.2 (Bool.noConfusion)
  · rename_i hne
    exact ⟨if_neg hne, hne⟩

namespace Linker

variable {σ : Type}

/-- A linker that has been asked for something and has not done anything yet. -/
def opening (settings : Settings) (engine : σ) (requests : List Request) : Linker σ :=
  ({ settings, engine } : Linker σ).ask requests

/-- One thing that may happen next. -/
inductive Move where
  | step (task : Nat)
  | act (task : Nat)
  | answer (task : Nat)
deriving DecidableEq, Repr

/-- Make a move; nothing happens when it is not possible. -/
def move (e : Engine σ) (l : Linker σ) : Move → Linker σ
  | .step task => (l.step e task).getD l
  | .act task => l.act e task
  | .answer task => l.answer task

/-- Make moves in order. -/
def play (e : Engine σ) (l : Linker σ) (moves : List Move) : Linker σ :=
  moves.foldl (move e) l

/-- Whatever each move keeps holds after every play. -/
theorem play_induction {e : Engine σ} {P : Linker σ → Prop}
    (hmove : ∀ l m, P l → P (l.move e m)) {l : Linker σ} (hl : P l) (moves : List Move) :
    P (l.play e moves) := by
  induction moves generalizing l with
  | nil => exact hl
  | cons m moves ih => exact ih (hmove l m hl)

theorem play_append (e : Engine σ) (l : Linker σ) (moves more : List Move) :
    l.play e (moves ++ more) = (l.play e moves).play e more :=
  List.foldl_append

/-! ## Tasks -/

theorem getElem?_setPhase (l : Linker σ) (task : Nat) (phase : Phase) (i : Nat) :
    (l.setPhase task phase).tasks[i]? =
      if task = i then (l.tasks[i]?).map fun t => { t with phase } else l.tasks[i]? := by
  rw [setPhase, List.getElem?_modify]
  split
  · rfl
  · simp

/-- The phase of a task is set, and nothing else about the tasks changes. -/
theorem eq_or_of_getElem?_setPhase {l : Linker σ} {task i : Nat} {phase : Phase} {t : Task}
    (h : (l.setPhase task phase).tasks[i]? = some t) :
    (i ≠ task ∧ l.tasks[i]? = some t) ∨
      (i = task ∧ t.phase = phase ∧ ∃ before, l.tasks[i]? = some before ∧
        before.request = t.request) := by
  rw [getElem?_setPhase] at h
  split at h
  · rename_i hsame
    obtain ⟨before, hbefore, rfl⟩ := Option.map_eq_some_iff.1 h
    exact Or.inr ⟨hsame.symm, rfl, before, hbefore, rfl⟩
  · rename_i hother
    exact Or.inl ⟨Ne.symm hother, h⟩

theorem getElem?_setPhase_of_ne {l : Linker σ} {task i : Nat} (h : i ≠ task)
    (phase : Phase) : (l.setPhase task phase).tasks[i]? = l.tasks[i]? := by
  rw [getElem?_setPhase, if_neg (Ne.symm h)]

theorem getElem?_setPhase_self {l : Linker σ} {task : Nat} {t : Task}
    (ht : l.tasks[task]? = some t) (phase : Phase) :
    (l.setPhase task phase).tasks[task]? = some { t with phase } := by
  rw [getElem?_setPhase, if_pos rfl, ht, Option.map_some]

/-! ## What a step can do -/

/-- The script that a task submits in its next step. -/
inductive Submits (e : Engine σ) (l : Linker σ) (task : Nat) : Task → Submission → Prop
  | removal {types : List String} :
    Submits e l task ⟨.stopByType types, .asked⟩
      (.ofScript .stopByType none ((l.synthesis e).stopByTypeScript types)
        (.removalOfTypes ((l.synthesis e).stopByTypeScript types).length types))
  | pushed {text : String} :
    Submits e l task ⟨.push text, .asked⟩
      ⟨.push, none, text, Synthesis.countLines text, .push, none⟩
  | ready {request : Request} {s : Submission} (hturn : l.turns.holds task = true) :
    Submits e l task ⟨request, .inLine (some s)⟩ s
  | start {c : Component} {script : Script} {typeResolved : Bool}
      (hturn : l.turns.holds task = true)
      (hplan : (l.synthesis e).planStart c = .ok (.script script typeResolved)) :
    Submits e l task ⟨.start c, .inLine none⟩
      (.ofScript .start (some c.id) script (.start (c.path (l.synthesis e).node))
        (if typeResolved then none else some c))
  | bindings {request : Request} {s : Submission} {c : Component} {script : Script}
      (hdeferred : s.deferred? = some c)
      (hplan : (l.synthesis e).planDeferred c = .script script) :
    Submits e l task ⟨request, .submitted s (some .accept)⟩
      (.ofScript .deferredBinding (some c.id) script
        (.deferredBinding (c.path (l.synthesis e).node)))

/-- The id that a task queues for in its next step, with the script that it has. -/
inductive Joins (e : Engine σ) (l : Linker σ) : Task → String → Option Submission → Prop
  | start {c : Component} : Joins e l ⟨.start c, .asked⟩ c.id none
  | stop {id : String} {script : Script}
      (hscript : (l.synthesis e).removeScript id = .ok script) :
    Joins e l ⟨.stop id, .asked⟩ id
      (some (.ofScript .stop (some id) script (.removal ⟨(l.synthesis e).node, id⟩)))
  | update {id key value : String} {script : Script}
      (hscript : (l.synthesis e).updateScript id key value = .ok script) :
    Joins e l ⟨.update id key value, .asked⟩ id
      (some (.ofScript .update (some id) script (.update id key)))

/-- What a task submits does not depend on events and notices. -/
theorem Submits.withNotices {e : Engine σ} {l : Linker σ} {task : Nat} {t : Task}
    {s : Submission} (h : Submits e l task t s) (events : List (Event Nat))
    (notices : List (Nat × Notice)) : Submits e { l with events, notices } task t s := by
  cases h with
  | removal => exact .removal
  | pushed => exact .pushed
  | ready hturn => exact .ready hturn
  | start hturn hplan => exact .start hturn hplan
  | bindings hdeferred hplan => exact .bindings hdeferred hplan

theorem Joins.withNotices {e : Engine σ} {l : Linker σ} {t : Task} {id : String}
    {script? : Option Submission} (h : Joins e l t id script?) (events : List (Event Nat))
    (notices : List (Nat × Notice)) : Joins e { l with events, notices } t id script? := by
  cases h with
  | start => exact .start
  | stop hscript => exact .stop hscript
  | update hscript => exact .update hscript

/-- A task queues for the turn that its request takes. -/
theorem Joins.turn {e : Engine σ} {l : Linker σ} {t : Task} {id : String}
    {script? : Option Submission} (h : Joins e l t id script?) :
    t.request.turn? = some id := by
  cases h with
  | start => rfl
  | stop => rfl
  | update => rfl

/-- Why a task fails in its next step without having submitted a script. -/
inductive Fails (e : Engine σ) (l : Linker σ) : Task → Failure → Prop
  | start {c : Component} {failure : Failure} (hvalid : c.validate = .error failure) :
    Fails e l ⟨.start c, .asked⟩ failure
  | startInTurn {c : Component} {failure : Failure}
      (hplan : (l.synthesis e).planStart c = .error failure) :
    Fails e l ⟨.start c, .inLine none⟩ failure
  | stop {id : String} {failure : Failure}
      (hscript : (l.synthesis e).removeScript id = .error failure) :
    Fails e l ⟨.stop id, .asked⟩ failure
  | update {id key value : String} {failure : Failure}
      (hscript : (l.synthesis e).updateScript id key value = .error failure) :
    Fails e l ⟨.update id key value, .asked⟩ failure

/-- Why a task has nothing to submit. -/
inductive Skips (e : Engine σ) (l : Linker σ) : Task → String → Prop
  | removal {types : List String} (hscript : (l.synthesis e).stopByTypeScript types = []) :
    Skips e l ⟨.stopByType types, .asked⟩ "nothing running"
  | pushed {text : String} (hlines : Synthesis.countLines text = 0) :
    Skips e l ⟨.push text, .asked⟩ "empty script"
  | start {c : Component} (hplan : (l.synthesis e).planStart c = .ok .running) :
    Skips e l ⟨.start c, .inLine none⟩ "already running"

/-- What becomes of a linker when a task is carried on by one step, with the events that
the step publishes. -/
inductive Acts (e : Engine σ) (l : Linker σ) (task : Nat) (t : Task) : Linker σ → Prop
  | fail (notices : List (Nat × Notice)) {failure : Failure} (hfails : Fails e l t failure) :
    Acts e l task t ({ l with notices }.finish task (.error failure))
  | skip (notices : List (Nat × Notice)) {reason : String} (hskips : Skips e l t reason) :
    Acts e l task t
      ({ l with notices }.skip task t.request.operation t.request.turn? reason)
  | join (notices : List (Nat × Notice)) {id : String} {script? : Option Submission}
      (hjoins : Joins e l t id script?) :
    Acts e l task t ({ l with notices }.joinLine task id script?)
  | submit {events : List (Event Nat)} (notices : List (Nat × Notice)) {s : Submission}
      (hevents : events = l.events ++ t.report task) (hsubmits : Submits e l task t s) :
    Acts e l task t ({ l with events, notices }.submit e task s)
  | conclude (notices : List (Nat × Notice)) {s : Submission} {verdict : Verdict}
      (hphase : t.phase = .submitted s (some verdict)) :
    Acts e l task t ({ l with events := l.events ++ [s.reported task verdict], notices }.finish
      task (s.outcome verdict))

theorem acts_begin (e : Engine σ) (l : Linker σ) (task : Nat) (request : Request) :
    Acts e l task ⟨request, .asked⟩ (l.begin e task request) := by
  have hevents : l.events = l.events ++ Task.report task ⟨request, .asked⟩ :=
    (List.append_nil _).symm
  cases request with
  | start component =>
    rw [begin]
    split
    · rename_i failure hvalid
      exact .fail l.notices (.start hvalid)
    · exact .join l.notices .start
  | stopByType types =>
    simp only [begin]
    split
    · rename_i hscript
      exact .skip l.notices (.removal hscript)
    · exact .submit l.notices hevents .removal
  | stop id =>
    simp only [begin]
    split
    · rename_i failure hscript
      exact .fail _ (.stop hscript)
    · rename_i script hscript
      exact .join _ (.stop hscript)
  | update id key value =>
    simp only [begin]
    split
    · rename_i failure hscript
      exact .fail l.notices (.update hscript)
    · rename_i script hscript
      exact .join l.notices (.update hscript)
  | push text =>
    simp only [begin]
    split
    · rename_i hlines
      exact .skip l.notices (.pushed hlines)
    · exact .submit _ hevents .pushed

theorem acts_startInTurn (e : Engine σ) (l : Linker σ) {task : Nat} (c : Component)
    (hturn : l.turns.holds task = true) :
    Acts e l task ⟨.start c, .inLine none⟩ (l.startInTurn e task c) := by
  simp only [startInTurn]
  split
  · rename_i failure hplan
    exact .fail _ (.startInTurn hplan)
  · rename_i hplan
    exact .skip _ (.start hplan)
  · rename_i script typeResolved hplan
    exact .submit _ (List.append_nil _).symm (.start hturn hplan)

theorem acts_heed (e : Engine σ) (l : Linker σ) (task : Nat) (request : Request)
    (s : Submission) (verdict : Verdict) :
    Acts e l task ⟨request, .submitted s (some verdict)⟩ (l.heed e task s verdict) := by
  have hphase : Task.phase ⟨request, .submitted s (some verdict)⟩ =
      .submitted s (some verdict) := rfl
  cases verdict with
  | reject => exact .conclude _ hphase
  | drop => exact .conclude _ hphase
  | accept =>
    rw [heed]
    cases hdeferred : s.deferred? with
    | none => exact .conclude l.notices hphase
    | some c =>
      unfold afterApplied
      dsimp only
      split
      · exact .conclude _ hphase
      · rename_i script hplan
        exact .submit _ rfl (.bindings hdeferred hplan)

/-- Whatever a step does is one of the acts of its task. -/
theorem acts_of_step {e : Engine σ} {l next : Linker σ} {task : Nat}
    (h : l.step e task = some next) :
    ∃ t, l.tasks[task]? = some t ∧ Acts e l task t next := by
  cases ht : l.tasks[task]? with
  | none => simp [step, ht] at h
  | some t =>
    obtain ⟨request, phase⟩ := t
    refine ⟨⟨request, phase⟩, rfl, ?_⟩
    cases phase with
    | asked =>
      simp only [step, ht, Option.some.injEq] at h
      exact h ▸ acts_begin e l task request
    | inLine script? =>
      -- Nothing happens before the task has its turn.
      simp only [step, ht] at h
      split at h
      · rename_i hturn
        split at h
        · exact Option.some.inj h ▸ .submit l.notices (List.append_nil _).symm (.ready hturn)
        · exact Option.some.inj h ▸ acts_startInTurn e l _ hturn
        · simp at h
      · simp at h
    | submitted s answer? =>
      cases answer? with
      | none => simp [step, ht] at h
      | some verdict =>
        simp only [step, ht, Option.some.injEq] at h
        exact h ▸ acts_heed e l task request s verdict
    | finished result => simp [step, ht] at h

/-! ## What a step comes to -/

theorem not_waits_asked : ¬ Phase.Waits .asked := by
  rintro ⟨s, h⟩
  simp at h

theorem not_waits_inLine (script? : Option Submission) : ¬ Phase.Waits (.inLine script?) := by
  rintro ⟨s, h⟩
  simp at h

theorem not_waits_answered (s : Submission) (verdict : Verdict) :
    ¬ Phase.Waits (.submitted s (some verdict)) := by
  rintro ⟨s', h⟩
  simp at h

theorem Fails.not_waits {e : Engine σ} {l : Linker σ} {t : Task} {failure : Failure}
    (h : Fails e l t failure) : ¬ t.phase.Waits := by
  cases h with
  | start => exact not_waits_asked
  | startInTurn => exact not_waits_inLine none
  | stop => exact not_waits_asked
  | update => exact not_waits_asked

theorem Skips.not_waits {e : Engine σ} {l : Linker σ} {t : Task} {reason : String}
    (h : Skips e l t reason) : ¬ t.phase.Waits := by
  cases h with
  | removal => exact not_waits_asked
  | pushed => exact not_waits_asked
  | start => exact not_waits_inLine none

/-- What becomes of a linker when a task is carried on by one step. -/
inductive Steps (e : Engine σ) (l : Linker σ) (task : Nat) (t : Task) : Linker σ → Prop
  | finish (events : List (Event Nat)) (notices : List (Nat × Notice))
      (result : Except Failure Bool) (hwaits : ¬ t.phase.Waits) :
    Steps e l task t ({ l with events, notices }.finish task result)
  | join (notices : List (Nat × Notice)) {id : String} {script? : Option Submission}
      (hjoins : Joins e l t id script?) :
    Steps e l task t ({ l with notices }.joinLine task id script?)
  | submit (events : List (Event Nat)) (notices : List (Nat × Notice)) {s : Submission}
      (hsubmits : Submits e l task t s) :
    Steps e l task t ({ l with events, notices }.submit e task s)

theorem Acts.steps {e : Engine σ} {l next : Linker σ} {task : Nat} {t : Task}
    (h : Acts e l task t next) : Steps e l task t next := by
  cases h with
  | fail notices hfails => exact .finish l.events notices _ hfails.not_waits
  | skip notices hskips => exact .finish _ notices _ hskips.not_waits
  | join notices hjoins => exact .join notices hjoins
  | submit notices hevents hsubmits => exact .submit _ notices hsubmits
  | @conclude notices s verdict hphase =>
    have hwaits : ¬ t.phase.Waits := by
      rw [hphase]
      exact not_waits_answered s verdict
    exact .finish _ notices _ hwaits

/-- A step finishes its task, puts it in line or submits a script for it. -/
theorem steps_of_step {e : Engine σ} {l next : Linker σ} {task : Nat}
    (h : l.step e task = some next) :
    ∃ t, l.tasks[task]? = some t ∧ Steps e l task t next := by
  obtain ⟨t, ht, hacts⟩ := acts_of_step h
  exact ⟨t, ht, hacts.steps⟩

/-- A task that steps does not wait for an answer. -/
theorem Steps.not_waits {e : Engine σ} {l next : Linker σ} {task : Nat} {t : Task}
    (h : Steps e l task t next) : ¬ t.phase.Waits := by
  cases h with
  | finish events notices result hwaits => exact hwaits
  | join notices hjoins =>
    cases hjoins with
    | start => exact not_waits_asked
    | stop => exact not_waits_asked
    | update => exact not_waits_asked
  | submit events notices hsubmits =>
    cases hsubmits with
    | removal => exact not_waits_asked
    | pushed => exact not_waits_asked
    | ready => exact not_waits_inLine _
    | start => exact not_waits_inLine _
    | bindings => exact not_waits_answered _ _

/-! ## What the engine can do -/

/-- The script that the engine acts on when it acts on one of a task. -/
def nextAct? (l : Linker σ) (task : Nat) : Option Held :=
  l.held.find? fun h => h.task = task && !h.acted

theorem nextAct?_eq_some {l : Linker σ} {task : Nat} {h : Held}
    (hnext : l.nextAct? task = some h) : h ∈ l.held ∧ h.task = task ∧ h.acted = false := by
  have hfits := List.find?_some hnext
  simp only [Bool.and_eq_true, decide_eq_true_eq, Bool.not_eq_true'] at hfits
  exact ⟨List.mem_of_find?_eq_some hnext, hfits⟩

theorem act_of_none {l : Linker σ} {task : Nat} (hnext : l.nextAct? task = none)
    (e : Engine σ) : l.act e task = l := by
  rw [nextAct?] at hnext
  rw [act, hnext]

theorem act_of_some {l : Linker σ} {task : Nat} {h : Held} (hnext : l.nextAct? task = some h)
    (e : Engine σ) :
    l.act e task =
      { l with
        engine := e.act l.engine h.text h.verdict
        held := l.held.map (Held.mark task) } := by
  rw [nextAct?] at hnext
  rw [act, hnext]
  rfl

/-- What is open after an act was open before, and belongs to another task. -/
theorem mem_of_open_act {e : Engine σ} {l : Linker σ} {task : Nat} {h : Held}
    (hheld : h ∈ (l.act e task).held) (hopen : h.IsOpen) : h ∈ l.held ∧ h.task ≠ task := by
  cases hnext : l.nextAct? task with
  | none =>
    rw [act_of_none hnext] at hheld
    refine ⟨hheld, fun htask => ?_⟩
    have hnone := List.find?_eq_none.1 hnext h hheld
    simp [htask, hopen.2] at hnone
  | some first =>
    rw [act_of_some hnext] at hheld
    obtain ⟨before, hbefore, rfl⟩ := List.mem_map.1 hheld
    obtain ⟨hsame, hother⟩ := hopen.of_mark
    rw [hsame]
    exact ⟨hbefore, hother⟩

/-- An answer is about a script that was acted on. -/
theorem answer_eq (l : Linker σ) (task : Nat) :
    l.answer task = l ∨ ∃ h ∈ l.held, h.task = task ∧ h.acted = true ∧
      l.answer task =
        { l with
          held := l.held.filter fun h' => h'.task ≠ task
          tasks := l.tasks.modify task (Task.told h.verdict) } := by
  rw [answer]
  cases hfind : l.held.find? fun h => h.task = task && h.acted with
  | none => exact Or.inl rfl
  | some h =>
    have hfits := List.find?_some hfind
    simp only [Bool.and_eq_true, decide_eq_true_eq] at hfits
    exact Or.inr ⟨h, List.mem_of_find?_eq_some hfind, hfits.1, hfits.2, rfl⟩

theorem engine_answer (l : Linker σ) (task : Nat) : (l.answer task).engine = l.engine := by
  rcases answer_eq l task with heq | ⟨h, -, -, -, heq⟩
  · rw [heq]
  · rw [heq]

theorem mem_of_mem_answer {l : Linker σ} {task : Nat} {h : Held}
    (hheld : h ∈ (l.answer task).held) : h ∈ l.held := by
  rcases answer_eq l task with heq | ⟨first, -, -, -, heq⟩
  · rwa [heq] at hheld
  · rw [heq] at hheld
    exact (List.mem_filter.1 hheld).1

theorem getElem?_told {tasks : List Task} {task i : Nat} {verdict : Verdict} {t : Task}
    (h : (tasks.modify task (Task.told verdict))[i]? = some t) :
    ∃ before, tasks[i]? = some before ∧ t.request = before.request ∧
      (t.phase = before.phase ∨
        ∃ s, before.phase = .submitted s none ∧ t.phase = .submitted s (some verdict)) := by
  rw [List.getElem?_modify, Option.map_eq_map, Option.map_eq_some_iff] at h
  obtain ⟨before, hbefore, hafter⟩ := h
  refine ⟨before, hbefore, ?_⟩
  rw [← hafter]
  split
  · exact ⟨Task.request_told verdict before, Task.phase_told verdict before⟩
  · exact ⟨rfl, Or.inl rfl⟩

/-- Every task is still there when one is told. -/
theorem exists_getElem?_told {tasks : List Task} {i : Nat} {t : Task}
    (h : tasks[i]? = some t) (task : Nat) (verdict : Verdict) :
    ∃ t', (tasks.modify task (Task.told verdict))[i]? = some t' ∧
      (t' = t ∨ t' = t.told verdict) := by
  rw [List.getElem?_modify, h]
  by_cases hi : task = i
  · exact ⟨t.told verdict, by simp [hi], Or.inr rfl⟩
  · exact ⟨t, by simp [hi], Or.inl rfl⟩

/-! ## What no move changes -/

/-- What is asked of a linker, task by task. -/
def requests (l : Linker σ) : List Request := l.tasks.map (·.request)

theorem getElem?_requests {l : Linker σ} {i : Nat} {t : Task} (h : l.tasks[i]? = some t) :
    l.requests[i]? = some t.request := by
  rw [requests, List.getElem?_map, h, Option.map_some]

theorem requests_opening (settings : Settings) (engine : σ) (requests : List Request) :
    (opening settings engine requests).requests = requests := by
  have hnew : (fun request => Task.request { request }) = id := rfl
  change (requests.map fun request => ({ request } : Task)).map (·.request) = requests
  rw [List.map_map]
  exact (congrArg (requests.map ·) hnew).trans (List.map_id requests)

theorem map_request_modify {f : Task → Task} (hf : ∀ t, (f t).request = t.request)
    (tasks : List Task) (task : Nat) :
    (tasks.modify task f).map (·.request) = tasks.map (·.request) := by
  refine List.ext_getElem? fun i => ?_
  rw [List.getElem?_map, List.getElem?_map, List.getElem?_modify]
  cases tasks[i]? with
  | none => rfl
  | some t =>
    rw [Option.map_eq_map, Option.map_some, Option.map_some, Option.map_some]
    split
    · rw [hf]
    · rfl

theorem requests_setPhase (l : Linker σ) (task : Nat) (phase : Phase) :
    (l.setPhase task phase).requests = l.requests :=
  map_request_modify (f := fun t => { t with phase }) (fun _ => rfl) l.tasks task

theorem requests_told (l : Linker σ) (task : Nat) (verdict : Verdict) :
    (l.tasks.modify task (Task.told verdict)).map (·.request) = l.requests :=
  map_request_modify (Task.request_told verdict) l.tasks task

theorem Steps.frame {e : Engine σ} {l next : Linker σ} {task : Nat} {t : Task}
    (h : Steps e l task t next) :
    next.settings = l.settings ∧ next.requests = l.requests := by
  cases h with
  | finish events notices result => exact ⟨rfl, l.requests_setPhase task _⟩
  | join notices hjoins => exact ⟨rfl, l.requests_setPhase task _⟩
  | submit events notices hsubmits => exact ⟨rfl, l.requests_setPhase task _⟩

theorem frame_act (e : Engine σ) (l : Linker σ) (task : Nat) :
    (l.act e task).settings = l.settings ∧ (l.act e task).requests = l.requests := by
  cases hnext : l.nextAct? task with
  | none =>
    rw [act_of_none hnext]
    exact ⟨rfl, rfl⟩
  | some h =>
    rw [act_of_some hnext]
    exact ⟨rfl, rfl⟩

theorem frame_answer (l : Linker σ) (task : Nat) :
    (l.answer task).settings = l.settings ∧ (l.answer task).requests = l.requests := by
  rcases answer_eq l task with heq | ⟨h, -, -, -, heq⟩
  · rw [heq]
    exact ⟨rfl, rfl⟩
  · rw [heq]
    exact ⟨rfl, l.requests_told task h.verdict⟩

/-- No move changes the settings or what is asked. -/
theorem frame_move (e : Engine σ) (l : Linker σ) (m : Move) :
    (l.move e m).settings = l.settings ∧ (l.move e m).requests = l.requests := by
  cases m with
  | step task =>
    rw [move]
    cases h : l.step e task with
    | none => exact ⟨rfl, rfl⟩
    | some next =>
      obtain ⟨t, -, hsteps⟩ := steps_of_step h
      exact hsteps.frame
  | act task => exact l.frame_act e task
  | answer task => exact l.frame_answer task

theorem frame_play (e : Engine σ) (l : Linker σ) (moves : List Move) :
    (l.play e moves).settings = l.settings ∧ (l.play e moves).requests = l.requests := by
  refine play_induction (P := fun l' => l'.settings = l.settings ∧ l'.requests = l.requests)
    (fun l' m h => ?_) ⟨rfl, rfl⟩ moves
  obtain ⟨hsettings, hrequests⟩ := frame_move e l' m
  exact ⟨hsettings.trans h.1, hrequests.trans h.2⟩

end Linker

end Wiring
