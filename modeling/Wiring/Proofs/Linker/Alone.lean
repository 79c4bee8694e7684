import Wiring.Proofs.Linker.Progress

/-!
# A request alone

When everything else is finished, nothing interferes with a request, and what it comes to is
a matter of its own steps: `Course.ofRequest` says what is published, what is handed over,
what the result is and where it leaves the engine, without tasks, turns and moves.

In every play that finishes the request it comes to just that, `course_of_play`.  The
invariant is `Alone`: what has been done so far and the rest of the course, by the phase of
the task, are the whole course.  This holds for every engine.

`Finishes` says the same of all plays and runs at once: the request is finished in the end,
and has been served as its course says, `finishes_ask`.
-/

namespace Wiring

/-- What becomes of a request: what it publishes and hands over, what it comes to, and where
it leaves the engine. -/
structure Course (σ : Type) where
  events : List (Event Nat)
  scripts : List (Nat × String)
  result : Except Failure Bool
  engine : σ

namespace Course

variable {σ : Type}

/-- A course after some events and scripts. -/
def after (events : List (Event Nat)) (scripts : List (Nat × String)) (course : Course σ) :
    Course σ :=
  { course with events := events ++ course.events, scripts := scripts ++ course.scripts }

/-- Nothing is left to do. -/
def ended (engine : σ) (result : Except Failure Bool) : Course σ := ⟨[], [], result, engine⟩

/-- There is nothing to submit. -/
def skipped (task : Nat) (request : Request) (reason : String) (engine : σ) : Course σ :=
  (ended engine (.ok false)).after
    [⟨task, request.operation, request.turn?, .skipped reason⟩] []

/-- The answer to a script is the end. -/
def concluded (task : Nat) (s : Submission) (verdict : Verdict) (engine : σ) : Course σ :=
  (ended engine (s.outcome verdict)).after [s.reported task verdict] []

/-- The engine receives a script, decides on it and acts on it, and something follows. -/
def handedOver (e : Engine σ) (task : Nat) (s : Submission) (engine : σ)
    (next : Verdict → σ → Course σ) : Course σ :=
  let received := e.receive engine s.text
  (next received.1 (e.act received.2 s.text received.1)).after [s.announced task]
    [(task, s.text)]

variable (e : Engine σ) (settings : Settings) (task : Nat)

/-- A script was applied, and the bindings of a type may be to follow. -/
def applied (s : Submission) (engine : σ) : Course σ :=
  match s.deferred? with
  | none => concluded task s .accept engine
  | some c =>
    match (⟨e.model engine, settings⟩ : Synthesis).planDeferred c with
    | .nothing => concluded task s .accept engine
    | .script script =>
      let bindings : Submission := .ofScript .deferredBinding (some c.id) script
        (.deferredBinding (c.path settings.nodeName))
      (handedOver e task bindings engine (concluded task bindings)).after
        [s.reported task .accept] []

/-- There is an answer to a script. -/
def answered (s : Submission) : Verdict → σ → Course σ
  | .accept => applied e settings task s
  | .reject => concluded task s .reject
  | .drop => concluded task s .drop

/-- A script is handed over. -/
def sent (s : Submission) (engine : σ) : Course σ :=
  handedOver e task s engine (answered e settings task s)

/-- A start that has its turn. -/
def inTurn (c : Component) (engine : σ) : Course σ :=
  match (⟨e.model engine, settings⟩ : Synthesis).planStart c with
  | .error failure => ended engine (.error failure)
  | .ok .running => skipped task (.start c) "already running" engine
  | .ok (.script script typeResolved) =>
    sent e settings task
      (.ofScript .start (some c.id) script (.start (c.path settings.nodeName))
        (if typeResolved then none else some c)) engine

/-- What becomes of a request when nothing else is asked. -/
def ofRequest (engine : σ) : Request → Course σ
  | .start c =>
    match c.validate with
    | .error failure => ended engine (.error failure)
    | .ok _ => inTurn e settings task c engine
  | .stopByType types =>
    let script := (⟨e.model engine, settings⟩ : Synthesis).stopByTypeScript types
    if script = [] then skipped task (.stopByType types) "nothing running" engine
    else
      sent e settings task
        (.ofScript .stopByType none script (.removalOfTypes script.length types)) engine
  | .stop id =>
    match (⟨e.model engine, settings⟩ : Synthesis).removeScript id with
    | .error failure => ended engine (.error failure)
    | .ok script =>
      sent e settings task
        (.ofScript .stop (some id) script (.removal ⟨settings.nodeName, id⟩)) engine
  | .update id key value =>
    match (⟨e.model engine, settings⟩ : Synthesis).updateScript id key value with
    | .error failure => ended engine (.error failure)
    | .ok script =>
      sent e settings task (.ofScript .update (some id) script (.update id key)) engine
  | .push text =>
    let lines := Synthesis.countLines text
    if lines = 0 then skipped task (.push text) "empty script" engine
    else sent e settings task ⟨.push, none, text, lines, .push, none⟩ engine

theorem after_after (events events' : List (Event Nat)) (scripts scripts' : List (Nat × String))
    (course : Course σ) :
    (course.after events' scripts').after events scripts =
      course.after (events ++ events') (scripts ++ scripts') := by
  rw [after, after, after, List.append_assoc, List.append_assoc]

/-- Nothing follows a script that no bindings are to follow. -/
theorem answered_of_last {s : Submission} (hlast : s.deferred? = none) :
    answered e settings task s = concluded task s := by
  funext verdict engine
  cases verdict with
  | accept => rw [answered, applied, hlast]
  | reject => rfl
  | drop => rfl

end Course

namespace Linker

open Course

variable {σ : Type} {e : Engine σ} {l : Linker σ}

/-- All tasks are finished, and the engine has answered all scripts. -/
structure AtRest (l : Linker σ) : Prop where
  finished : ∀ (i : Nat) (t : Task), l.tasks[i]? = some t → ∃ result, t.phase = .finished result
  held : l.held = []

/-- All tasks but one are finished. -/
def OthersFinished (l : Linker σ) (task : Nat) : Prop :=
  ∀ (i : Nat) (t : Task), l.tasks[i]? = some t → i ≠ task → ∃ result, t.phase = .finished result

/-- What is ahead of a task when the engine has no scripts of others. -/
inductive Faces (e : Engine σ) (l : Linker σ) (task : Nat) : Task → Course σ → Prop
  | asked {request : Request} (hheld : l.held = []) :
    Faces e l task ⟨request, .asked⟩ (ofRequest e l.settings task l.engine request)
  | start {c : Component} (hheld : l.held = []) :
    Faces e l task ⟨.start c, .inLine none⟩ (inTurn e l.settings task c l.engine)
  | ready {request : Request} {s : Submission} (hheld : l.held = []) :
    Faces e l task ⟨request, .inLine (some s)⟩ (sent e l.settings task s l.engine)
  | received {request : Request} {s : Submission} {h : Held} (hheld : l.held = [h])
      (htask : h.task = task) (hacted : h.acted = false) :
    Faces e l task ⟨request, .submitted s none⟩
      (answered e l.settings task s h.verdict (e.act l.engine h.text h.verdict))
  | acted {request : Request} {s : Submission} {h : Held} (hheld : l.held = [h])
      (htask : h.task = task) (hacted : h.acted = true) :
    Faces e l task ⟨request, .submitted s none⟩
      (answered e l.settings task s h.verdict l.engine)
  | answered {request : Request} {s : Submission} {verdict : Verdict} (hheld : l.held = []) :
    Faces e l task ⟨request, .submitted s (some verdict)⟩
      (answered e l.settings task s verdict l.engine)
  | finished {request : Request} {result : Except Failure Bool} (hheld : l.held = []) :
    Faces e l task ⟨request, .finished result⟩ (ended l.engine result)

/-- The other tasks are finished, and what this one has done so far is the beginning of its
course. -/
structure Alone (e : Engine σ) (l : Linker σ) (task : Nat) (total : Course σ) : Prop where
  others : l.OthersFinished task
  course : ∃ t rest, l.tasks[task]? = some t ∧ Faces e l task t rest ∧
    total = rest.after l.events l.scripts

theorem Faces.task_of_held {task : Nat} {t : Task} {rest : Course σ}
    (hfaces : Faces e l task t rest) {h : Held} (hh : h ∈ l.held) : h.task = task := by
  cases hfaces with
  | received hheld htask hacted =>
    rw [hheld] at hh
    rw [List.mem_singleton.1 hh, htask]
  | acted hheld htask hacted =>
    rw [hheld] at hh
    rw [List.mem_singleton.1 hh, htask]
  | _ hheld =>
    rw [hheld] at hh
    exact absurd hh List.not_mem_nil

/-! ## What the task does -/

section steps

variable {task : Nat} {t : Task}

/-- The others stay finished when the phase of the task is set. -/
theorem OthersFinished.setPhase (hothers : l.OthersFinished task) (phase : Phase) :
    (l.setPhase task phase).OthersFinished task := by
  intro i t ht hi
  rw [getElem?_setPhase_of_ne hi] at ht
  exact hothers i t ht hi

theorem alone_finish
    (hothers : l.OthersFinished task)
    (ht : l.tasks[task]? = some t) (hheld : l.held = []) (result : Except Failure Bool) :
    (l.finish task result).Alone e task ((ended l.engine result).after l.events l.scripts) :=
  ⟨OthersFinished.setPhase (l := { l with turns := l.turns.release task }) hothers _,
    _, _, getElem?_setPhase_self (l := { l with turns := l.turns.release task }) ht _,
    .finished hheld, rfl⟩

theorem alone_skip
    (hothers : l.OthersFinished task)
    (ht : l.tasks[task]? = some t) (hheld : l.held = []) (request : Request)
    (reason : String) :
    (l.skip task request.operation request.turn? reason).Alone e task
      ((skipped task request reason l.engine).after l.events l.scripts) := by
  rw [skipped, after_after, List.append_nil]
  exact alone_finish (l := l.publish task request.operation request.turn? (.skipped reason))
    hothers ht hheld (.ok false)

theorem alone_submit
    (hothers : l.OthersFinished task)
    (ht : l.tasks[task]? = some t) (hheld : l.held = []) (s : Submission) :
    (l.submit e task s).Alone e task
      ((sent e l.settings task s l.engine).after l.events l.scripts) := by
  rw [sent, handedOver, after_after]
  refine ⟨hothers.setPhase _, _, _, getElem?_setPhase_self ht _, ?_, rfl⟩
  have hone : (l.submit e task s).held =
      [{ task, text := s.text, verdict := (e.receive l.engine s.text).1 }] :=
    congrArg (· ++ _) hheld
  exact .received hone rfl rfl

theorem alone_joinLine {total : Course σ} (hothers : l.OthersFinished task)
    (ht : l.tasks[task]? = some t) (id : String) {script? : Option Submission}
    {rest : Course σ}
    (hfaces : Faces e (l.joinLine task id script?) task { t with phase := .inLine script? } rest)
    (htotal : total = rest.after l.events l.scripts) :
    (l.joinLine task id script?).Alone e task total :=
  ⟨OthersFinished.setPhase (l := { l with turns := l.turns.acquire task id }) hothers _,
    _, rest, getElem?_setPhase_self (l := { l with turns := l.turns.acquire task id }) ht _,
    hfaces, htotal⟩

theorem alone_begin {request : Request} (hothers : l.OthersFinished task)
    (ht : l.tasks[task]? = some ⟨request, .asked⟩) (hheld : l.held = []) :
    (l.begin e task request).Alone e task
      ((ofRequest e l.settings task l.engine request).after l.events l.scripts) := by
  cases request with
  | start c =>
    simp only [begin, ofRequest]
    cases c.validate with
    | error failure => exact alone_finish hothers ht hheld _
    | ok valid => exact alone_joinLine hothers ht c.id (.start hheld) rfl
  | stopByType types =>
    simp only [begin, ofRequest]
    by_cases hscript : (l.synthesis e).stopByTypeScript types = []
    · rw [if_pos hscript, if_pos (show Synthesis.stopByTypeScript ⟨_, _⟩ types = [] from hscript)]
      exact alone_skip hothers ht hheld (.stopByType types) _
    · rw [if_neg hscript, if_neg (show ¬ Synthesis.stopByTypeScript ⟨_, _⟩ types = [] from hscript)]
      exact alone_submit hothers ht hheld _
  | stop id =>
    simp only [begin, ofRequest, synthesis]
    cases (⟨e.model l.engine, l.settings⟩ : Synthesis).removeScript id with
    | error failure => exact alone_finish (l := l.note task _) hothers ht hheld _
    | ok script => exact alone_joinLine (l := l.note task _) hothers ht id (.ready hheld) rfl
  | update id key value =>
    simp only [begin, ofRequest, synthesis]
    cases (⟨e.model l.engine, l.settings⟩ : Synthesis).updateScript id key value with
    | error failure => exact alone_finish hothers ht hheld _
    | ok script => exact alone_joinLine hothers ht id (.ready hheld) rfl
  | push text =>
    simp only [begin, ofRequest, synthesis]
    by_cases hlines : Synthesis.countLines text = 0
    · rw [if_pos hlines, if_pos hlines]
      exact alone_skip hothers ht hheld (.push text) _
    · rw [if_neg hlines, if_neg hlines]
      exact alone_submit (l := l.note task _) hothers ht hheld _

theorem alone_startInTurn {c : Component} (hothers : l.OthersFinished task)
    (ht : l.tasks[task]? = some t) (hheld : l.held = []) :
    (l.startInTurn e task c).Alone e task
      ((inTurn e l.settings task c l.engine).after l.events l.scripts) := by
  simp only [startInTurn, inTurn, synthesis]
  cases (⟨e.model l.engine, l.settings⟩ : Synthesis).planStart c with
  | error failure => exact alone_finish (l := l.note task _) hothers ht hheld _
  | ok plan =>
    cases plan with
    | running => exact alone_skip (l := l.note task _) hothers ht hheld (.start c) _
    | script script typeResolved => exact alone_submit (l := l.note task _) hothers ht hheld _

/-- The answer to a script is published, and the request is finished. -/
theorem alone_conclude (hothers : l.OthersFinished task) (ht : l.tasks[task]? = some t)
    (hheld : l.held = []) (s : Submission) (verdict : Verdict) (notices : List (Nat × Notice)) :
    ({ l with events := l.events ++ [s.reported task verdict], notices }.finish task
        (s.outcome verdict)).Alone e task
      ((concluded task s verdict l.engine).after l.events l.scripts) := by
  rw [concluded, after_after, List.append_nil]
  exact alone_finish (l := { l with events := l.events ++ [s.reported task verdict], notices })
    hothers ht hheld _

theorem alone_heed (hothers : l.OthersFinished task) (ht : l.tasks[task]? = some t)
    (hheld : l.held = []) (s : Submission) (verdict : Verdict) :
    (l.heed e task s verdict).Alone e task
      ((Course.answered e l.settings task s verdict l.engine).after l.events l.scripts) := by
  cases verdict with
  | reject => exact alone_conclude hothers ht hheld s .reject _
  | drop => exact alone_conclude hothers ht hheld s .drop _
  | accept =>
    rw [heed, Course.answered, Course.applied]
    cases s.deferred? with
    | none => exact alone_conclude hothers ht hheld s .accept _
    | some c =>
      unfold afterApplied
      dsimp only
      split
      · rename_i hplan
        have hsame : Synthesis.planDeferred ⟨e.model l.engine, l.settings⟩ c = .nothing := hplan
        rw [hsame]
        exact alone_conclude hothers ht hheld s .accept _
      · rename_i script hplan
        have hsame : Synthesis.planDeferred ⟨e.model l.engine, l.settings⟩ c = .script script :=
          hplan
        rw [hsame]
        dsimp only
        rw [after_after, List.append_nil, ← answered_of_last e l.settings task rfl]
        exact alone_submit (l := { l with
          events := l.events ++ [s.reported task .accept], notices := _ }) hothers ht hheld _

end steps

/-! ## Every move -/

namespace Alone

variable {task : Nat} {total : Course σ}

theorem step {next : Linker σ} (hl : l.Alone e task total) (h : l.step e task = some next) :
    next.Alone e task total := by
  obtain ⟨t, rest, ht, hfaces, rfl⟩ := hl.course
  have hothers := hl.others
  cases hfaces with
  | asked hheld =>
    simp only [Linker.step, ht, Option.some.injEq] at h
    exact h ▸ alone_begin hothers ht hheld
  | start hheld =>
    simp only [Linker.step, ht] at h
    split at h
    · exact Option.some.inj h ▸ alone_startInTurn hothers ht hheld
    · simp at h
  | ready hheld =>
    simp only [Linker.step, ht] at h
    split at h
    · exact Option.some.inj h ▸ alone_submit hothers ht hheld _
    · simp at h
  | received hheld htask hacted => simp [Linker.step, ht] at h
  | acted hheld htask hacted => simp [Linker.step, ht] at h
  | answered hheld =>
    simp only [Linker.step, ht, Option.some.injEq] at h
    exact h ▸ alone_heed hothers ht hheld _ _
  | finished hheld => simp [Linker.step, ht] at h

/-- The engine acts on a script of the task. -/
theorem act (hl : l.Alone e task total) {h : Held} (hnext : l.nextAct? task = some h) :
    (l.act e task).Alone e task total := by
  obtain ⟨t, rest, ht, hfaces, htotal⟩ := hl.course
  obtain ⟨hmem, -, hopen⟩ := nextAct?_eq_some hnext
  rw [act_of_some hnext]
  refine ⟨hl.others, ?_⟩
  cases hfaces with
  | received hheld htask hacted =>
    rw [hheld] at hmem
    obtain rfl := List.mem_singleton.1 hmem
    have hone : l.held.map (Held.mark task) = [{ h with acted := true }] := by
      rw [hheld, List.map_singleton, Held.mark, if_pos htask]
    exact ⟨_, _, ht, .acted (h := { h with acted := true }) hone htask rfl, htotal⟩
  | acted hheld htask hacted =>
    rw [hheld] at hmem
    rw [List.mem_singleton.1 hmem, hacted] at hopen
    simp at hopen
  | _ hheld =>
    rw [hheld] at hmem
    exact absurd hmem List.not_mem_nil

/-- The task gets the answer to its script. -/
theorem answer (hl : l.Alone e task total) {h : Held} (hmem : h ∈ l.held)
    (hacted : h.acted = true)
    (heq : l.answer task =
      { l with
        held := l.held.filter fun h' => h'.task ≠ task
        tasks := l.tasks.modify task (Task.told h.verdict) }) :
    (l.answer task).Alone e task total := by
  obtain ⟨t, rest, ht, hfaces, htotal⟩ := hl.course
  rw [heq]
  refine ⟨fun i u hu hi => hl.others i u ?_ hi, ?_⟩
  · exact (List.getElem?_modify_ne _ _ (Ne.symm hi)).symm.trans hu
  · have htold : (l.tasks.modify task (Task.told h.verdict))[task]? =
        some (t.told h.verdict) := by
      rw [List.getElem?_modify, ht]
      simp
    cases hfaces with
    | received hheld htask hopen =>
      rw [hheld] at hmem
      rw [List.mem_singleton.1 hmem, hopen] at hacted
      simp at hacted
    | acted hheld htask hdone =>
      rw [hheld] at hmem
      obtain rfl := List.mem_singleton.1 hmem
      have hnone : l.held.filter (fun h' => h'.task ≠ task) = [] := by
        rw [hheld, List.filter_cons_of_neg (by simp [htask]), List.filter_nil]
      exact ⟨_, _, htold, .answered hnone, htotal⟩
    | _ hheld =>
      rw [hheld] at hmem
      exact absurd hmem List.not_mem_nil

/-- Every move keeps to the course of the task. -/
theorem move (hl : l.Alone e task total) (m : Move) : (l.move e m).Alone e task total := by
  obtain ⟨t, rest, ht, hfaces, -⟩ := hl.course
  cases m with
  | step i =>
    rw [Linker.move]
    cases h : l.step e i with
    | none => exact hl
    | some next =>
      by_cases hi : i = task
      · exact hl.step (hi ▸ h)
      · -- The other tasks are finished.
        obtain ⟨u, hu, -⟩ := steps_of_step h
        obtain ⟨result, hfinished⟩ := hl.others i u hu hi
        simp [Linker.step, hu, hfinished] at h
  | act i =>
    rw [Linker.move]
    cases hnext : l.nextAct? i with
    | none =>
      rw [act_of_none hnext]
      exact hl
    | some h =>
      obtain ⟨hmem, htask, -⟩ := nextAct?_eq_some hnext
      obtain rfl := htask.symm.trans (hfaces.task_of_held hmem)
      exact hl.act hnext
  | answer i =>
    rw [Linker.move]
    rcases answer_eq l i with heq | ⟨h, hmem, htask, hacted, heq⟩
    · rw [heq]
      exact hl
    · obtain rfl := htask.symm.trans (hfaces.task_of_held hmem)
      exact hl.answer hmem hacted heq

theorem play (hl : l.Alone e task total) (moves : List Move) :
    (l.play e moves).Alone e task total :=
  play_induction (P := fun l' => l'.Alone e task total) (fun _ m hl' => hl'.move m) hl moves

/-- When the task is finished, its course is what has been done. -/
theorem atRest (hl : l.Alone e task total) {result : Except Failure Bool}
    (hresult : l.result? task = some result) :
    l.AtRest ∧ total = ⟨l.events, l.scripts, result, l.engine⟩ := by
  obtain ⟨t, rest, ht, hfaces, htotal⟩ := hl.course
  obtain ⟨request, hfinished⟩ := result?_eq_some_iff.1 hresult
  rw [ht] at hfinished
  obtain rfl := Option.some.inj hfinished
  cases hfaces with
  | finished hheld =>
    refine ⟨⟨fun i u hu => ?_, hheld⟩, ?_⟩
    · by_cases hi : i = task
      · rw [hi, ht] at hu
        exact ⟨result, congrArg Task.phase (Option.some.inj hu).symm⟩
      · exact hl.others i u hu hi
    · rw [htotal, after, ended, List.append_nil, List.append_nil]

end Alone

/-! ## Main statement -/

/-- A request to a linker at rest is alone. -/
theorem alone_ask (hl : l.AtRest) (e : Engine σ) (request : Request) :
    (l.ask [request]).Alone e l.tasks.length
      ((ofRequest e l.settings l.tasks.length l.engine request).after l.events l.scripts) where
  others := by
    intro i t ht hi
    rcases getElem?_ask ht with hold | ⟨hge, -⟩
    · exact hl.finished i t hold
    · obtain ⟨hlt, -⟩ := List.getElem?_eq_some_iff.1 ht
      change i < (l.tasks ++ [({ request } : Task)]).length at hlt
      rw [List.length_append, List.length_singleton] at hlt
      omega
  course := ⟨{ request }, _, List.getElem?_concat_length, .asked hl.held, rfl⟩

/-- In every play that finishes a request to a linker at rest, what is published and handed
over, the result and the state of the engine are the course of the request; and the linker
is at rest again. -/
theorem course_of_play (hl : l.AtRest) (e : Engine σ) (request : Request) (moves : List Move)
    {result : Except Failure Bool}
    (hresult : ((l.ask [request]).play e moves).result? l.tasks.length = some result) :
    ((l.ask [request]).play e moves).AtRest ∧
      (ofRequest e l.settings l.tasks.length l.engine request).after l.events l.scripts =
        ⟨((l.ask [request]).play e moves).events, ((l.ask [request]).play e moves).scripts,
          result, ((l.ask [request]).play e moves).engine⟩ :=
  ((alone_ask hl e request).play moves).atRest hresult

/-- So it is with the only request to a linker that has not done anything yet. -/
theorem course_of_opening (e : Engine σ) (settings : Settings) (engine : σ) (request : Request)
    (moves : List Move) {result : Except Failure Bool}
    (hresult : ((opening settings engine [request]).play e moves).result? 0 = some result) :
    ((opening settings engine [request]).play e moves).AtRest ∧
      ofRequest e settings 0 engine request =
        ⟨((opening settings engine [request]).play e moves).events,
          ((opening settings engine [request]).play e moves).scripts, result,
          ((opening settings engine [request]).play e moves).engine⟩ := by
  have hrest : ({ settings, engine } : Linker σ).AtRest := ⟨fun i t ht => by simp at ht, rfl⟩
  exact course_of_play hrest e request moves hresult

/-- A run finishes a request to a linker at rest, and it comes to its course. -/
theorem course_of_run (hl : l.AtRest) (hlined : l.Lined) (e : Engine σ) (request : Request)
    (completion : Completion) :
    ∃ result, ((l.ask [request]).run e completion).result? l.tasks.length = some result ∧
      ((l.ask [request]).run e completion).AtRest ∧
      (ofRequest e l.settings l.tasks.length l.engine request).after l.events l.scripts =
        ⟨((l.ask [request]).run e completion).events,
          ((l.ask [request]).run e completion).scripts, result,
          ((l.ask [request]).run e completion).engine⟩ := by
  have hasked := hlined.ask [request]
  obtain ⟨moves, hmoves, -⟩ := exists_play_run hasked e completion
  have hnew : l.tasks.length < (l.ask [request]).tasks.length := by
    change l.tasks.length < (l.tasks ++ [({ request } : Task)]).length
    rw [List.length_append, List.length_singleton]
    exact Nat.lt_succ_self _
  obtain ⟨result, hresult⟩ :=
    Option.isSome_iff_exists.1 (hasked.isSome_result?_run e completion hnew)
  refine ⟨result, hresult, ?_⟩
  rw [hmoves] at hresult ⊢
  exact course_of_play hl e request moves hresult

/-! ## A request to the end -/

/-- A task is finished in the end, and whichever way it gets there, something holds of its
result and of the linker. -/
structure Finishes (e : Engine σ) (l : Linker σ) (task : Nat)
    (P : Except Failure Bool → Linker σ → Prop) : Prop where
  play : ∀ moves result, (l.play e moves).result? task = some result →
    P result (l.play e moves)
  run : ∀ completion, ∃ result, (l.run e completion).result? task = some result ∧
    P result (l.run e completion)

/-- What a linker is like after a request that it got at rest. -/
structure Served (e : Engine σ) (l : Linker σ) (request : Request)
    (result : Except Failure Bool) (after : Linker σ) : Prop where
  rest : after.AtRest
  lined : after.Lined
  settings : after.settings = l.settings
  tasks : after.tasks.length = l.tasks.length + 1
  course : (Course.ofRequest e l.settings l.tasks.length l.engine request).after l.events
    l.scripts = ⟨after.events, after.scripts, result, after.engine⟩

/-- A request to a linker at rest runs its course. -/
theorem finishes_ask (hrest : l.AtRest) (hlined : l.Lined) (e : Engine σ) (request : Request) :
    Finishes e (l.ask [request]) l.tasks.length (l.Served e request) := by
  have hasked : (l.ask [request]).Lined := hlined.ask [request]
  have hplay : ∀ moves result,
      ((l.ask [request]).play e moves).result? l.tasks.length = some result →
      l.Served e request result ((l.ask [request]).play e moves) := by
    intro moves result hresult
    obtain ⟨hafter, hcourse⟩ := course_of_play hrest e request moves hresult
    refine ⟨hafter, hasked.play e moves, (frame_play e (l.ask [request]) moves).1, ?_, hcourse⟩
    rw [length_tasks_play, ask, List.length_append, List.map_singleton, List.length_singleton]
  refine ⟨hplay, fun completion => ?_⟩
  -- A run is a play that finishes the request.
  obtain ⟨result, hresult, -⟩ := course_of_run hrest hlined e request completion
  obtain ⟨moves, hmoves, -⟩ := exists_play_run hasked e completion
  rw [hmoves] at hresult ⊢
  exact ⟨result, hresult, hplay moves result hresult⟩

theorem Finishes.imp {task : Nat} {P Q : Except Failure Bool → Linker σ → Prop}
    (h : Finishes e l task P) (hpq : ∀ result after, P result after → Q result after) :
    Finishes e l task Q := by
  refine ⟨fun moves result hresult => hpq _ _ (h.play moves result hresult), fun completion => ?_⟩
  obtain ⟨result, hresult, hp⟩ := h.run completion
  exact ⟨result, hresult, hpq _ _ hp⟩

end Linker

end Wiring
