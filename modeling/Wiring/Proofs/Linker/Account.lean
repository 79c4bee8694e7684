import Wiring.Proofs.Linker.Life
import Wiring.Proofs.Linker.Ordered

/-!
# Events, scripts and results agree

In every play each request is where `Life` says, by its own events and the scripts that the
engine received from it, whatever is done for the other requests in between.  A script that
waits for an answer is the last one of its task, so the answer is about that script.  The
invariant is `Chronicled`; every move keeps it, `Chronicled.move`.

So a finished request has a `Story`, and what can be said about its events, scripts and
result is read off the four stories, `Story.agrees`.
-/

namespace Wiring

/-- The events of a finished request, what the engine received from it, and its result are
of one mind. -/
structure Agrees (settings : Settings) (task : Nat) (request : Request)
    (events : List (Event Nat)) (handed : List Handover) (result : Except Failure Bool) :
    Prop where
  story : Story settings task request events handed result
  refused : events = [] ↔ ∃ failure, result = .error failure ∧ failure.IsRefusal
  skipped : (∃ reason, events = [⟨task, request.operation, request.turn?, .skipped reason⟩]) ↔
    result = .ok false
  unsent : events = [] ∨ result = .ok false → handed = []
  submitted : events.countP (fun event => !event.isTerminal) = handed.length
  applied : result = .ok true ↔ handed ≠ [] ∧ ∀ h ∈ handed, h.verdict = .accept
  rejected : ∀ h ∈ handed, h.verdict = .reject →
    ∃ what, result = .error (.rejected what) ∧ (Failure.rejected what).kind =
      if request.isRemoval then .stopError else .modelUpdateFailed
  abandoned : ∀ h ∈ handed, h.verdict = .drop →
    ∃ operation, result = .error (.abandoned operation)

theorem Task.request_of_mem_report {task : Nat} {t : Task} {event : Event Nat}
    (h : event ∈ t.report task) : event.request = task := by
  unfold report at h
  split at h
  · rw [List.mem_singleton.1 h]
    rfl
  · exact absurd h List.not_mem_nil

theorem Held.verdict_mark (task : Nat) (h : Held) : (h.mark task).verdict = h.verdict := by
  unfold mark
  split <;> rfl

namespace Linker

variable {σ : Type} {e : Engine σ} {l : Linker σ} {handed : List Handover}

/-- Every request is where its own events and handovers say, and an answer is about the
last script of its task. -/
structure Chronicled (l : Linker σ) (handed : List Handover) : Prop where
  lives : ∀ i t, l.tasks[i]? = some t →
    Life l.settings i t.request (l.eventsOf i) (handoversOf handed i) t.phase
  last : ∀ h ∈ l.held, (handoversOf handed h.task).getLast?.map (·.verdict) = some h.verdict
  scripts : l.scripts = handed.map fun h => (h.task, h.text)

theorem chronicled_opening (settings : Settings) (engine : σ) (requests : List Request) :
    (opening settings engine requests).Chronicled [] where
  lives := by
    intro i t ht
    obtain ⟨request, -, rfl⟩ := List.mem_map.1 (List.mem_of_getElem? ht)
    exact .asked
  last := fun _ hheld => absurd hheld List.not_mem_nil
  scripts := rfl

/-- Entries that all belong to one task are the entries of this task. -/
theorem filter_of_task {α : Type} {key : α → Nat} {task : Nat} {entries : List α}
    (h : ∀ a ∈ entries, key a = task) (i : Nat) :
    entries.filter (fun a => key a = i) = if i = task then entries else [] := by
  split
  · rename_i hi
    exact List.filter_eq_self.2 fun a ha => by simp [h a ha, hi]
  · rename_i hi
    exact List.filter_eq_nil_iff.2 fun a ha => by simp [h a ha, Ne.symm hi]

namespace Chronicled

/-- What is done for one task leaves the lives of the others as they are. -/
theorem of_task {next : Linker σ} (hl : l.Chronicled handed) {task : Nat} {t : Task}
    (ht : l.tasks[task]? = some t) {phase : Phase} {events : List (Event Nat)}
    {more : List Handover} (hsettings : next.settings = l.settings)
    (htasks : next.tasks = (l.setPhase task phase).tasks)
    (hevents : next.events = l.events ++ events)
    (hown : ∀ event ∈ events, event.request = task) (hmore : ∀ h ∈ more, h.task = task)
    (hscripts : next.scripts = l.scripts ++ more.map fun h => (h.task, h.text))
    (hlife : Life l.settings task t.request (l.eventsOf task ++ events)
      (handoversOf handed task ++ more) phase)
    (hlast : ∀ h ∈ next.held, h ∈ l.held ∧ h.task ≠ task ∨
      h.task = task ∧ more.getLast?.map (·.verdict) = some h.verdict) :
    next.Chronicled (handed ++ more) where
  lives := by
    intro i u hu
    rw [htasks] at hu
    rw [hsettings, eventsOf, hevents, handoversOf, List.filter_append, List.filter_append,
      filter_of_task hown, filter_of_task hmore]
    -- The new events and handovers count for the task alone.
    rcases eq_or_of_getElem?_setPhase hu with ⟨hi, hbefore⟩ | ⟨rfl, hphase, before, hbefore, hsame⟩
    · rw [if_neg hi, if_neg hi, List.append_nil, List.append_nil]
      exact hl.lives i u hbefore
    · rw [ht] at hbefore
      rw [if_pos rfl, if_pos rfl, hphase, ← hsame, ← Option.some.inj hbefore]
      exact hlife
  last := by
    intro h hheld
    rw [handoversOf, List.filter_append, filter_of_task hmore]
    rcases hlast h hheld with ⟨hold, hne⟩ | ⟨htask, hnew⟩
    · rw [if_neg hne, List.append_nil]
      exact hl.last h hold
    · rw [if_pos htask, List.getLast?_append]
      cases hnewest : more.getLast? with
      | none => simp [hnewest] at hnew
      | some newest =>
        rw [hnewest] at hnew
        exact hnew
  scripts := by rw [hscripts, hl.scripts, List.map_append]

/-- A step that submits nothing. -/
theorem of_quiet_task {next : Linker σ} (hl : l.Chronicled handed) {task : Nat} {t : Task}
    (ht : l.tasks[task]? = some t) (hwaits : ¬ t.phase.Waits) (hordered : l.Ordered)
    {phase : Phase} {events : List (Event Nat)} (hsettings : next.settings = l.settings)
    (htasks : next.tasks = (l.setPhase task phase).tasks)
    (hevents : next.events = l.events ++ events)
    (hown : ∀ event ∈ events, event.request = task) (hscripts : next.scripts = l.scripts)
    (hheld : next.held = l.held)
    (hlife : Life l.settings task t.request (l.eventsOf task ++ events)
      (handoversOf handed task) phase) :
    next.Chronicled handed := by
  have hnothing : (handoversOf handed task ++ []) = handoversOf handed task :=
    List.append_nil _
  rw [← List.append_nil handed]
  refine hl.of_task ht hsettings htasks hevents hown (by simp) (by simp [hscripts])
    (hnothing.symm ▸ hlife) fun h hh => ?_
  rw [hheld] at hh
  exact Or.inl ⟨hh, hordered.task_ne ht hwaits hh⟩

theorem step {next : Linker σ} (hl : l.Chronicled handed) (hordered : l.Ordered) {task : Nat}
    (h : l.step e task = some next) :
    next.Chronicled (handed ++ l.handed e (.step task)) := by
  obtain ⟨t, ht, hacts⟩ := acts_of_step h
  have hlife := hl.lives task t ht
  have hwaits := hacts.steps.not_waits
  have hquiet : next.scripts = l.scripts → l.handed e (.step task) = [] := by
    intro hscripts
    apply handed_of_scripts_eq
    rw [Linker.move, h, Option.getD_some, hscripts]
  cases hacts with
  | fail notices hfails =>
    rw [hquiet rfl, List.append_nil]
    refine hl.of_quiet_task ht hwaits hordered rfl rfl (List.append_nil _).symm (by simp) rfl rfl ?_
    rw [List.append_nil]
    exact hlife.fail hfails
  | skip notices hskips =>
    rw [hquiet rfl, List.append_nil]
    exact hl.of_quiet_task ht hwaits hordered rfl rfl rfl (by simp) rfl rfl (hlife.skip hskips)
  | join notices hjoins =>
    rw [hquiet rfl, List.append_nil]
    refine hl.of_quiet_task ht hwaits hordered rfl rfl (List.append_nil _).symm (by simp) rfl rfl ?_
    rw [List.append_nil]
    exact hlife.join hjoins
  | conclude notices hphase =>
    rw [hquiet rfl, List.append_nil]
    exact hl.of_quiet_task ht hwaits hordered rfl rfl rfl (by simp [Submission.reported])
      rfl rfl (hlife.conclude hphase)
  | @submit events notices s hevents hsubmits =>
    subst hevents
    rw [handed_of_submit h]
    refine hl.of_task ht rfl rfl (List.append_assoc _ _ _) ?_ (by simp [received]) rfl
      (hlife.submit hsubmits) fun h' hheld => ?_
    · intro event hevent
      rcases List.mem_append.1 hevent with hreport | hannounced
      · exact Task.request_of_mem_report hreport
      · exact congrArg Event.request (List.mem_singleton.1 hannounced)
    · rcases List.mem_append.1 hheld with hold | hnew
      · exact Or.inl ⟨hold, hordered.task_ne ht hwaits hold⟩
      · rw [List.mem_singleton.1 hnew]
        exact Or.inr ⟨rfl, rfl⟩

theorem act (hl : l.Chronicled handed) (e : Engine σ) (task : Nat) :
    (l.act e task).Chronicled handed := by
  cases hnext : l.nextAct? task with
  | none =>
    rw [act_of_none hnext]
    exact hl
  | some first =>
    rw [act_of_some hnext]
    refine ⟨hl.lives, fun h hheld => ?_, hl.scripts⟩
    -- An acted script is of the same task and decided in the same way.
    obtain ⟨before, hbefore, rfl⟩ := List.mem_map.1 hheld
    rw [Held.task_mark, Held.verdict_mark]
    exact hl.last before hbefore

theorem answer (hl : l.Chronicled handed) (task : Nat) :
    (l.answer task).Chronicled handed := by
  rcases answer_eq l task with heq | ⟨h, hheld, htask, -, heq⟩
  · rw [heq]
    exact hl
  · rw [heq]
    refine ⟨fun i t ht => ?_, fun h' hheld' => ?_, hl.scripts⟩
    · obtain ⟨before, hbefore, hrequest, hphase⟩ := getElem?_told ht
      have hlife := hl.lives i before hbefore
      rw [hrequest]
      rcases hphase with hsame | ⟨s, hwas, hnow⟩
      · rw [hsame]
        exact hlife
      · by_cases hi : task = i
        · -- The task that is told is the one whose script was decided.
          have hlast := hl.last h hheld
          rw [htask, hi] at hlast
          rw [hwas] at hlife
          rw [hnow]
          exact hlife.told hlast
        · have hsame : l.tasks[i]? = some t := (List.getElem?_modify_ne _ _ hi).symm.trans ht
          rw [← hrequest]
          exact hl.lives i t hsame
    · exact hl.last h' (List.mem_filter.1 hheld').1

/-- Every move keeps the lives of the requests. -/
theorem move (hl : l.Chronicled handed) (hordered : l.Ordered) (e : Engine σ) (m : Move) :
    (l.move e m).Chronicled (handed ++ l.handed e m) := by
  cases m with
  | step task =>
    cases h : l.step e task with
    | none =>
      have hstay : l.move e (.step task) = l := by rw [Linker.move, h, Option.getD_none]
      rw [handed_of_scripts_eq (by rw [hstay]), hstay, List.append_nil]
      exact hl
    | some next =>
      have hnext : l.move e (.step task) = next := by rw [Linker.move, h, Option.getD_some]
      rw [hnext]
      exact hl.step hordered h
  | act task =>
    have hscripts : (l.move e (.act task)).scripts = l.scripts := scripts_act e l task
    rw [handed_of_scripts_eq hscripts, List.append_nil]
    exact hl.act e task
  | answer task =>
    have hscripts : (l.move e (.answer task)).scripts = l.scripts := l.scripts_answer task
    rw [handed_of_scripts_eq hscripts, List.append_nil]
    exact hl.answer task

theorem play (hl : l.Chronicled handed) (hordered : l.Ordered) (e : Engine σ)
    (moves : List Move) : (l.play e moves).Chronicled (handed ++ l.handovers e moves) := by
  -- The handovers before a move are those of the play so far, so they change as well.
  induction moves generalizing l handed with
  | nil =>
    rw [handovers, List.append_nil]
    exact hl
  | cons m moves ih =>
    rw [handovers, ← List.append_assoc]
    exact ih (hl.move hordered e m) (hordered.move e m)

end Chronicled

end Linker

/-! ## Finished requests -/

namespace Submission

theorem isTerminal_announced (s : Submission) (task : Nat) :
    (s.announced task).isTerminal = false := rfl

theorem isTerminal_reported (s : Submission) (task : Nat) (verdict : Verdict) :
    (s.reported task verdict).isTerminal = true := by
  cases verdict <;> rfl

theorem outcome_eq_ok_true_iff {s : Submission} {verdict : Verdict} :
    s.outcome verdict = .ok true ↔ verdict = .accept := by
  cases verdict <;> simp [outcome]

theorem outcome_ne_ok_false (s : Submission) (verdict : Verdict) :
    s.outcome verdict ≠ .ok false := by
  cases verdict <;> simp [outcome]

/-- A script that is not applied is no refusal of the request. -/
theorem not_isRefusal_of_outcome {s : Submission} {verdict : Verdict} {failure : Failure}
    (h : s.outcome verdict = .error failure) : ¬ failure.IsRefusal := by
  rintro ⟨⟩ <;> cases verdict <;> simp [outcome] at h

end Submission

namespace Story

variable {settings : Settings} {task : Nat} {request : Request} {events : List (Event Nat)}
  {handed : List Handover} {result : Except Failure Bool}

/-- The scripts before the last were accepted, and the answer to the last decides. -/
theorem agrees_of_last {s : Submission} {h : Handover}
    (hstory : Story settings task request events (handed ++ [h]) (s.outcome h.verdict))
    (haccepted : ∀ h' ∈ handed, h'.verdict = .accept)
    (hremoval : s.rejection.isRemoval = request.isRemoval) (hlong : 2 ≤ events.length)
    (hcount : events.countP (fun event => !event.isTerminal) = (handed ++ [h]).length) :
    Agrees settings task request events (handed ++ [h]) (s.outcome h.verdict) where
  story := hstory
  refused := by
    constructor
    · rintro rfl
      simp at hlong
    · rintro ⟨failure, hresult, hrefusal⟩
      exact absurd hrefusal (Submission.not_isRefusal_of_outcome hresult)
  skipped := by
    constructor
    · rintro ⟨reason, rfl⟩
      simp at hlong
    · exact fun hresult => absurd hresult (s.outcome_ne_ok_false _)
  unsent := by
    rintro (rfl | hresult)
    · simp at hlong
    · exact absurd hresult (s.outcome_ne_ok_false _)
  submitted := hcount
  applied := by
    rw [Submission.outcome_eq_ok_true_iff, List.forall_mem_append, List.forall_mem_singleton]
    exact ⟨fun hlast => ⟨by simp, haccepted, hlast⟩, fun hall => hall.2.2⟩
  rejected := by
    intro h' hh' hreject
    rcases List.mem_append.1 hh' with hbefore | hlast
    · simp [haccepted h' hbefore] at hreject
    · rw [← List.mem_singleton.1 hlast, hreject, ← hremoval]
      exact ⟨s.rejection, rfl, rfl⟩
  abandoned := by
    intro h' hh' hdrop
    rcases List.mem_append.1 hh' with hbefore | hlast
    · simp [haccepted h' hbefore] at hdrop
    · rw [← List.mem_singleton.1 hlast, hdrop]
      exact ⟨s.operation, rfl⟩

/-- Whatever happened to a request, its events, scripts and result agree. -/
theorem agrees (hstory : Story settings task request events handed result) :
    Agrees settings task request events handed result := by
  cases hstory with
  | @refused failure hrefusal =>
    refine ⟨.refused hrefusal, ⟨fun _ => ⟨failure, rfl, hrefusal⟩, fun _ => rfl⟩, ?_,
      fun _ => rfl, rfl, ?_, ?_, ?_⟩ <;> simp
  | skipped reason =>
    refine ⟨.skipped reason, ?_, ⟨fun _ => rfl, fun _ => ⟨reason, rfl⟩⟩, fun _ => rfl, rfl,
      ?_, ?_, ?_⟩ <;> simp
  | @single s h hopens =>
    have hstory : Story settings task request _ ([] ++ [h]) _ := .single hopens
    refine agrees_of_last hstory (by simp) hopens.removal (Nat.le_refl _) ?_
    simp [Submission.isTerminal_announced, Submission.isTerminal_reported]
  | @bound s s' h h' c hopens hdeferred haccept hfollows =>
    -- Bindings follow a start only, which removes nothing.
    obtain ⟨hrequest, -⟩ := hopens.deferred c hdeferred
    have hremoval : s'.rejection.isRemoval = request.isRemoval := by
      rw [hfollows.removal, hrequest]
      rfl
    have hstory : Story settings task request _ ([h] ++ [h']) _ :=
      .bound hopens hdeferred haccept hfollows
    refine agrees_of_last hstory (by simpa using haccept) hremoval (by simp) ?_
    simp [Submission.isTerminal_announced, Submission.isTerminal_reported]

end Story

namespace Linker

variable {σ : Type}

/-- The result of a finished task, as the phase of the task. -/
theorem result?_eq_some_iff {l : Linker σ} {task : Nat} {result : Except Failure Bool} :
    l.result? task = some result ↔
      ∃ request, l.tasks[task]? = some ⟨request, .finished result⟩ := by
  constructor
  · intro h
    unfold result? at h
    split at h
    · rename_i request result' htask
      obtain rfl := Option.some.inj h
      exact ⟨request, htask⟩
    · simp at h
  · rintro ⟨request, htask⟩
    rw [result?, htask]

theorem Chronicled.scriptsOf {l : Linker σ} {handed : List Handover}
    (hl : l.Chronicled handed) (task : Nat) :
    l.scriptsOf task = (handoversOf handed task).map (·.text) := by
  rw [Linker.scriptsOf, hl.scripts, List.filter_map, List.map_map, handoversOf]
  rfl

/-- In every play, whatever the engine decides and whatever is done for other requests in
between, the events of a finished request, the scripts that the engine received from it
and its result agree. -/
theorem agrees_of_result (e : Engine σ) (settings : Settings) (engine : σ)
    (requests : List Request) (moves : List Move) {task : Nat} {result : Except Failure Bool}
    (hresult :
      ((opening settings engine requests).play e moves).result? task = some result) :
    ∃ request, requests[task]? = some request ∧
      ((opening settings engine requests).play e moves).scriptsOf task =
        (handoversOf ((opening settings engine requests).handovers e moves) task).map (·.text) ∧
      Agrees settings task request
        (((opening settings engine requests).play e moves).eventsOf task)
        (handoversOf ((opening settings engine requests).handovers e moves) task) result := by
  have hall := (chronicled_opening settings engine requests).play
    (ordered_opening settings engine requests) e moves
  rw [List.nil_append] at hall
  obtain ⟨hsettings, hrequests⟩ := frame_play e (opening settings engine requests) moves
  obtain ⟨request, htask⟩ := result?_eq_some_iff.1 hresult
  have hlife := hall.lives task _ htask
  have hasked := getElem?_requests htask
  rw [hrequests, requests_opening] at hasked
  rw [hsettings] at hlife
  exact ⟨request, hasked, hall.scriptsOf task, hlife.story.agrees⟩

/-- A switch of a type that leads to all lamps by default. -/
def lateSwitch : Component where
  typeName := "org.activehome.Switch"
  id := "s1"

/-- A plant with a lamp, where the type of the switch arrives with the first script. -/
def latePlant (verdicts : List Verdict) : Plant where
  model := { nodes := [⟨"home1", [⟨"light_a", "org.activehome.Light"⟩]⟩] }
  verdicts := verdicts
  arriving := [{
    name := "org"
    packages := [{
      name := "activehome"
      types := [{ name := "Switch", dictionary := [⟨"binding_out", some "o>Light.in"⟩] }] }] }]

/-- The switch is started, and a blank text is pushed while its script is with the
engine. -/
def lateMoves : List Move :=
  [.step 0, .step 0, .act 0, .step 1, .answer 0, .step 0, .act 0, .answer 0, .step 0]

/-- The requests of the play. -/
def lateRequests : List Request := [.start lateSwitch, .push "\n"]

/-- What the play comes to. -/
def latePlay (verdicts : List Verdict) : Linker Plant :=
  (opening (.forNode "home1") (latePlant verdicts) lateRequests).play Plant.engine lateMoves

theorem agrees_of_result_late :
    (latePlay [.accept, .reject]).result? 0 =
        some (.error (.rejected (.deferredBinding ⟨"home1", "s1"⟩))) ∧
      ∃ request, lateRequests[0]? = some request ∧
        (latePlay [.accept, .reject]).scriptsOf 0 =
          (handoversOf ((opening (.forNode "home1") (latePlant [.accept, .reject])
            lateRequests).handovers Plant.engine lateMoves) 0).map (·.text) ∧
        Agrees (.forNode "home1") 0 request ((latePlay [.accept, .reject]).eventsOf 0)
          (handoversOf ((opening (.forNode "home1") (latePlant [.accept, .reject])
            lateRequests).handovers Plant.engine lateMoves) 0)
          (.error (.rejected (.deferredBinding ⟨"home1", "s1"⟩))) := by
  have hresult : (latePlay [.accept, .reject]).result? 0 =
      some (.error (.rejected (.deferredBinding ⟨"home1", "s1"⟩))) := by decide +kernel
  exact ⟨hresult, agrees_of_result Plant.engine _ _ _ _ hresult⟩

end Linker

end Wiring
