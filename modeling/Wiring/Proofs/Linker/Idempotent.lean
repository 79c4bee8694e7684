import Wiring.Proofs.Linker.Components
import Wiring.Proofs.Linker.LoneStart

/-!
# Starting again

Once a start was skipped or was told that its script was applied, its component is on the
node.  As long as it stays there, a start of its id finds it when it has its turn, and has
nothing to submit, `occupied_of_start`.

The invariant is `Taken`; every move keeps it that does not apply a removal of the component,
whoever asked for that move.
-/

namespace Wiring

/-- A valid request to start a component of an id. -/
def Request.Starts (request : Request) (id : String) : Prop :=
  ∃ c, request = .start c ∧ c.id = id ∧ c.validate = .ok ()

/-- A task of this phase has submitted nothing and has not failed. -/
def Phase.Idle (phase : Phase) : Prop :=
  phase = .asked ∨ phase = .inLine none ∨ phase = .finished (.ok false)

theorem Phase.not_idle_submitted (s : Submission) (answer? : Option Verdict) :
    ¬ Phase.Idle (.submitted s answer?) := by
  simp [Idle]

/-! ## While a component is on the node -/

namespace Linker

/-- A step sets the phase of its task. -/
theorem Steps.exists_setPhase {σ : Type} {e : Engine σ} {l next : Linker σ} {task : Nat}
    {t : Task} (h : Steps e l task t next) :
    ∃ phase, next.tasks = (l.setPhase task phase).tasks := by
  cases h with
  | finish events notices result => exact ⟨_, rfl⟩
  | join notices hjoins => exact ⟨_, rfl⟩
  | submit events notices hsubmits => exact ⟨_, rfl⟩

/-- A step hands over at most one script, of its task. -/
theorem Steps.scripts {σ : Type} {e : Engine σ} {l next : Linker σ} {task : Nat} {t : Task}
    (h : Steps e l task t next) :
    next.scripts = l.scripts ∨ ∃ text, next.scripts = l.scripts ++ [(task, text)] := by
  cases h with
  | finish events notices result => exact Or.inl rfl
  | join notices hjoins => exact Or.inl rfl
  | submit events notices hsubmits => exact Or.inr ⟨_, rfl⟩

variable {l : Linker Plant} {id : String} {first : Nat}

/-- A component of an id is on the node, and of the tasks from one on those that are to start
the id are idle. -/
structure Taken (l : Linker Plant) (id : String) (first : Nat) : Prop where
  there : id ∈ l.engine.model.ids l.settings.nodeName
  idle : ∀ (i : Nat) (t : Task), first ≤ i → l.tasks[i]? = some t → t.request.Starts id →
    t.phase.Idle

theorem taken_ask (hthere : id ∈ l.engine.model.ids l.settings.nodeName)
    (requests : List Request) : (l.ask requests).Taken id l.tasks.length where
  there := hthere
  idle := by
    intro i t hi ht hstarts
    rcases getElem?_ask ht with hold | ⟨-, hasked⟩
    · obtain ⟨hlt, -⟩ := List.getElem?_eq_some_iff.1 hold
      omega
    · exact Or.inl hasked

namespace Taken

theorem planStart (hl : l.Taken id first) {c : Component} (hc : c.id = id) :
    (l.synthesis Plant.engine).planStart c = .ok .running :=
  Synthesis.planStart_of_mem (hc ▸ hl.there)

/-- A start of an id that is taken joins its line or is skipped. -/
theorem acts (hl : l.Taken id first) {task : Nat} {t : Task} {next : Linker Plant}
    (htask : first ≤ task) (ht : l.tasks[task]? = some t) (hstarts : t.request.Starts id)
    (hacts : Acts Plant.engine l task t next) :
    next.scripts = l.scripts ∧
      ∃ phase, next.tasks = (l.setPhase task phase).tasks ∧ phase.Idle := by
  have hidle := hl.idle task t htask ht hstarts
  obtain ⟨request, phase⟩ := t
  obtain ⟨c, rfl, hid, hvalid⟩ : request.Starts id := hstarts
  have hplan := hl.planStart hid
  cases hacts with
  | fail notices hfails =>
    cases hfails with
    | start hinvalid =>
      rw [hvalid] at hinvalid
      simp at hinvalid
    | startInTurn hfailed =>
      rw [hplan] at hfailed
      simp at hfailed
  | skip notices hskips => exact ⟨rfl, _, rfl, Or.inr (Or.inr rfl)⟩
  | join notices hjoins =>
    cases hjoins with
    | start => exact ⟨rfl, _, rfl, Or.inr (Or.inl rfl)⟩
  | submit notices hevents hsubmits =>
    cases hsubmits with
    | ready hturn => simp [Phase.Idle] at hidle
    | start hturn hscript =>
      rw [hplan] at hscript
      simp at hscript
    | bindings hdeferred hscript => exact absurd hidle (Phase.not_idle_submitted _ _)
  | conclude notices hphase =>
    rw [hphase] at hidle
    exact absurd hidle (Phase.not_idle_submitted _ _)

theorem idle_step (hl : l.Taken id first) {task : Nat} {next : Linker Plant}
    (h : l.step Plant.engine task = some next) {i : Nat} {u : Task} (hi : first ≤ i)
    (hu : next.tasks[i]? = some u) (hstarts : u.request.Starts id) : u.phase.Idle := by
  obtain ⟨t, ht, hacts⟩ := acts_of_step h
  by_cases hsame : i = task
  · subst hsame
    have hrequest := getElem?_requests hu
    rw [hacts.steps.frame.2, getElem?_requests ht] at hrequest
    rw [← Option.some.inj hrequest] at hstarts
    obtain ⟨-, phase, htasks, hphase⟩ := hl.acts hi ht hstarts hacts
    rw [htasks] at hu
    rcases eq_or_of_getElem?_setPhase hu with ⟨hne, -⟩ | ⟨-, hset, -⟩
    · exact absurd rfl hne
    · rw [hset]
      exact hphase
  · obtain ⟨phase, htasks⟩ := hacts.steps.exists_setPhase
    rw [htasks, getElem?_setPhase_of_ne hsame] at hu
    exact hl.idle i u hi hu hstarts

/-- Every move that does not remove the component leaves the id taken. -/
theorem move (hl : l.Taken id first) (m : Move)
    (hkept : .remove ⟨l.settings.nodeName, id⟩ ∉ l.appliedBy m) :
    (l.move Plant.engine m).Taken id first := by
  have hthere : id ∈ (l.engine.model.applyScript (l.appliedBy m)).ids l.settings.nodeName :=
    @Model.mem_ids_applyScript_of_kept _ ⟨l.settings.nodeName, id⟩ _ hl.there hkept
  rw [← Model.ids_congr (nodes_move l m), ← (frame_move Plant.engine l m).1] at hthere
  refine ⟨hthere, fun i u hi hu hstarts => ?_⟩
  cases m with
  | step task =>
    cases h : l.step Plant.engine task with
    | none =>
      rw [Linker.move, h, Option.getD_none] at hu
      exact hl.idle i u hi hu hstarts
    | some next =>
      rw [Linker.move, h, Option.getD_some] at hu
      exact hl.idle_step h hi hu hstarts
  | act task =>
    rw [Linker.move, (tasks_act Plant.engine l task).1] at hu
    exact hl.idle i u hi hu hstarts
  | answer task =>
    rw [Linker.move] at hu
    rcases answer_eq l task with heq | ⟨h, -, -, -, heq⟩
    · rw [heq] at hu
      exact hl.idle i u hi hu hstarts
    · rw [heq] at hu
      -- Who is told an answer has submitted something.
      obtain ⟨before, hbefore, hrequest, hphase⟩ := getElem?_told hu
      have hidle := hl.idle i before hi hbefore (hrequest ▸ hstarts)
      rcases hphase with hsame | ⟨s, hwas, -⟩
      · rw [hsame]
        exact hidle
      · rw [hwas] at hidle
        exact absurd hidle (Phase.not_idle_submitted _ _)

/-- The engine receives nothing from a start of the id. -/
theorem unsent (hl : l.Taken id first) (m : Move) {i : Nat} {request : Request}
    (hi : first ≤ i) (hrequest : l.requests[i]? = some request)
    (hstarts : request.Starts id) : handoversOf (l.handed Plant.engine m) i = [] := by
  have hquiet : (l.move Plant.engine m).scripts = l.scripts →
      handoversOf (l.handed Plant.engine m) i = [] := by
    intro hscripts
    rw [handed_of_scripts_eq hscripts]
    rfl
  cases m with
  | act task => exact hquiet (scripts_act Plant.engine l task)
  | answer task => exact hquiet (scripts_answer l task)
  | step task =>
    cases h : l.step Plant.engine task with
    | none => exact hquiet (by rw [Linker.move, h, Option.getD_none])
    | some next =>
      have hmove : l.move Plant.engine (.step task) = next := by
        rw [Linker.move, h, Option.getD_some]
      obtain ⟨t, ht, hacts⟩ := acts_of_step h
      by_cases hsame : i = task
      · subst hsame
        rw [getElem?_requests ht] at hrequest
        rw [← Option.some.inj hrequest] at hstarts
        obtain ⟨hscripts, -⟩ := hl.acts hi ht hstarts hacts
        exact hquiet (hmove ▸ hscripts)
      · rcases hacts.steps.scripts with hscripts | ⟨text, hscripts⟩
        · exact hquiet (hmove ▸ hscripts)
        · rw [handed, hmove, hscripts, List.drop_left, List.map_singleton, handoversOf,
            List.filter_cons_of_neg (by simpa using Ne.symm hsame), List.filter_nil]

theorem play (hl : l.Taken id first) (moves : List Move)
    (hkept : .remove ⟨l.settings.nodeName, id⟩ ∉ l.applied moves) :
    (l.play Plant.engine moves).Taken id first ∧
      ∀ (i : Nat) (request : Request), first ≤ i → l.requests[i]? = some request →
        request.Starts id → handoversOf (l.handovers Plant.engine moves) i = [] := by
  induction moves generalizing l with
  | nil => exact ⟨hl, fun _ _ _ _ _ => rfl⟩
  | cons m moves ih =>
    rw [applied, List.mem_append, not_or] at hkept
    obtain ⟨hnow, hlater⟩ := hkept
    obtain ⟨hsettings, hrequests⟩ := frame_move Plant.engine l m
    rw [← hsettings] at hlater
    obtain ⟨htaken, hrest⟩ := ih (hl.move m hnow) hlater
    refine ⟨htaken, fun i request hi hrequest hstarts => ?_⟩
    rw [handovers, handoversOf, List.filter_append, ← handoversOf, ← handoversOf,
      hl.unsent m hi hrequest hstarts, List.nil_append]
    exact hrest i request hi (hrequests ▸ hrequest) hstarts

end Taken

/-! ## Main statement -/

/-- Starts of an id are in vain, whatever else is asked and happens, as long as no removal of
the component is applied. -/
structure Occupied (l : Linker Plant) (id : String) : Prop where
  /-- Nothing is handed over for them; they come to `.ok false`, and no later than when
  nothing is left to do. -/
  among : ∀ (more : List Request) (moves : List Move),
    .remove ⟨l.settings.nodeName, id⟩ ∉ (l.ask more).applied moves →
    ∀ (i : Nat) (request : Request), more[i]? = some request → request.Starts id →
      let later := (l.ask more).play Plant.engine moves
      handoversOf ((l.ask more).handovers Plant.engine moves) (l.tasks.length + i) = [] ∧
        (∀ result, later.result? (l.tasks.length + i) = some result → result = .ok false) ∧
        (later.IsQuiet Plant.engine →
          later.result? (l.tasks.length + i) = some (.ok false))
  /-- When all is at rest, one more of them is skipped and leaves the engine as it is. -/
  alone : ∀ (more : List Request) (moves : List Move),
    .remove ⟨l.settings.nodeName, id⟩ ∉ (l.ask more).applied moves →
    ((l.ask more).play Plant.engine moves).AtRest →
    ∀ (request : Request) (completion : Completion), request.Starts id →
      let later := (l.ask more).play Plant.engine moves
      let again := (later.ask [request]).run Plant.engine completion
      again.result? later.tasks.length = some (.ok false) ∧
        again.scripts = later.scripts ∧ again.engine = later.engine

/-- At rest, a start of an id that is in use is skipped. -/
theorem skipped_of_run (hrest : l.AtRest) (hlined : l.Lined)
    (hthere : id ∈ l.engine.model.ids l.settings.nodeName) {request : Request}
    (hstarts : request.Starts id) (completion : Completion) :
    let again := (l.ask [request]).run Plant.engine completion
    again.result? l.tasks.length = some (.ok false) ∧ again.scripts = l.scripts ∧
      again.engine = l.engine := by
  intro again
  obtain ⟨c, rfl, rfl, hvalid⟩ := hstarts
  obtain ⟨result, hresult, -, hcourse⟩ :=
    course_of_run hrest hlined Plant.engine (.start c) completion
  have hplan : (⟨Plant.engine.model l.engine, l.settings⟩ : Synthesis).planStart c =
      .ok .running := Synthesis.planStart_of_mem hthere
  rw [Course.ofRequest_of_running hvalid hplan] at hcourse
  have hfalse : .ok false = result := congrArg Course.result hcourse
  have hscripts : l.scripts ++ ([] ++ []) = again.scripts := congrArg Course.scripts hcourse
  rw [List.append_nil, List.append_nil] at hscripts
  rw [← hfalse] at hresult
  exact ⟨hresult, hscripts.symm, (congrArg Course.engine hcourse).symm⟩

theorem occupied_of_mem (hlined : l.Lined)
    (hthere : id ∈ l.engine.model.ids l.settings.nodeName) : l.Occupied id where
  among := by
    intro more moves hkept i request hrequest hstarts later
    obtain ⟨htaken, hunsent⟩ := (taken_ask hthere more).play moves hkept
    have hi : l.tasks.length ≤ l.tasks.length + i := Nat.le_add_right _ _
    have hasked : (l.ask more).requests[l.tasks.length + i]? = some request := by
      rw [requests, ask, List.map_append, List.map_map,
        List.getElem?_append_right (by rw [List.length_map]; exact hi), List.length_map,
        Nat.add_sub_cancel_left, List.getElem?_map, hrequest]
      rfl
    have hlater : later.requests[l.tasks.length + i]? = some request := by
      rw [(frame_play Plant.engine (l.ask more) moves).2]
      exact hasked
    have hend : ∀ result, later.result? (l.tasks.length + i) = some result →
        result = .ok false := by
      intro result hresult
      obtain ⟨asked, ht⟩ := result?_eq_some_iff.1 hresult
      rw [getElem?_requests ht] at hlater
      obtain rfl : asked = request := Option.some.inj hlater
      simpa [Phase.Idle] using htaken.idle _ _ hi ht hstarts
    refine ⟨hunsent _ request hi hasked hstarts, hend, fun hquiet => ?_⟩
    obtain ⟨hin, -⟩ := List.getElem?_eq_some_iff.1 hlater
    rw [length_requests] at hin
    obtain ⟨result, hresult⟩ := Option.isSome_iff_exists.1
      (((hlined.ask more).play Plant.engine moves).isSome_result? hquiet hin)
    rw [hend result hresult] at hresult
    exact hresult
  alone := by
    intro more moves hkept hrest request completion hstarts
    obtain ⟨htaken, -⟩ := (taken_ask hthere more).play moves hkept
    exact skipped_of_run hrest ((hlined.ask more).play Plant.engine moves) htaken.there hstarts
      completion

/-- A start that is skipped leaves the components of the node as they were, and a start that
is told that its script was applied has put its component behind them; either way, all later
starts of the id are in vain until it is removed, whatever comes of the bindings that may
follow. -/
theorem occupied_of_start {settings : Settings} {plant : Plant} {c : Component}
    (hsettings : settings.ScriptSafe) (hmodel : plant.model.ScriptSafe settings.nodeName)
    (harriving : Package.ScriptSafe plant.arriving) (hc : c.ScriptSafe)
    (hnode : plant.model.HasNode settings.nodeName) (moves : List Move)
    {result : Except Failure Bool}
    (hresult : ((opening settings plant [.start c]).play Plant.engine moves).result? 0 =
      some result) :
    let after := (opening settings plant [.start c]).play Plant.engine moves
    (result = .ok false →
        after.engine.model.components settings.nodeName =
          plant.model.components settings.nodeName ∧ after.Occupied c.id) ∧
      (⟨0, .start, some c.id, .applied⟩ ∈ after.events →
        after.engine.model.components settings.nodeName =
          plant.model.components settings.nodeName ++ [⟨c.id, c.typeName⟩] ∧
        after.Occupied c.id) := by
  intro after
  obtain ⟨-, hcourse⟩ := course_of_opening Plant.engine settings plant (.start c) moves hresult
  have hstart := Course.ofStart Plant.engine settings 0 plant c
  rw [hcourse] at hstart
  have hlined := (lined_opening settings plant [.start c]).play Plant.engine moves
  have hsame : after.settings = settings :=
    (frame_play Plant.engine (opening settings plant [.start c]) moves).1
  have hoccupied : c.id ∈ after.engine.model.ids settings.nodeName → after.Occupied c.id := by
    intro hthere
    rw [← hsame] at hthere
    exact occupied_of_mem hlined hthere
  refine ⟨fun hskipped => ?_, fun happlied => ?_⟩
  · obtain ⟨hplan, hengine⟩ := Course.running_of_start hstart hskipped
    have hthere : c.id ∈ plant.model.ids settings.nodeName := Synthesis.mem_of_planStart hplan
    change after.engine = plant at hengine
    rw [hengine] at hoccupied ⊢
    exact ⟨rfl, hoccupied hthere⟩
  · have hcomponents : after.engine.model.components settings.nodeName =
        plant.model.components settings.nodeName ++ [⟨c.id, c.typeName⟩] :=
      Course.components_of_start ⟨hsettings, hmodel⟩ harriving hc hnode hstart happlied
    refine ⟨hcomponents, hoccupied ?_⟩
    rw [Model.ids, hcomponents, List.map_append]
    exact List.mem_append_right _ (List.mem_singleton.2 rfl)

/-- A start whose script is applied and whose bindings are rejected. -/
def unboundMoves : List Move :=
  [.step 0, .step 0, .act 0, .answer 0, .step 0, .act 0, .answer 0, .step 0]

/-- The plant after the switch was started and its bindings were rejected. -/
def unboundPlay : Linker Plant :=
  (opening (.forNode "home1") (latePlant [.accept, .reject]) [.start lateSwitch]).play
    Plant.engine unboundMoves

theorem occupied_of_start_unbound :
    (Settings.forNode "home1").ScriptSafe ∧
      (latePlant [.accept, .reject]).model.ScriptSafe "home1" ∧
      Package.ScriptSafe (latePlant [.accept, .reject]).arriving ∧ lateSwitch.ScriptSafe ∧
      (latePlant [.accept, .reject]).model.HasNode "home1" ∧
      unboundPlay.result? 0 =
        some (.error (.rejected (.deferredBinding ⟨"home1", "s1"⟩))) ∧
      ⟨0, .start, some "s1", .applied⟩ ∈ unboundPlay.events ∧
      unboundPlay.engine.model.components "home1" =
        (latePlant [.accept, .reject]).model.components "home1" ++
          [⟨"s1", "org.activehome.Switch"⟩] ∧
      unboundPlay.Occupied "s1" := by
  have hsettings : (Settings.forNode "home1").ScriptSafe := by decide
  have hmodel : (latePlant [.accept, .reject]).model.ScriptSafe "home1" := by decide
  have harriving : Package.ScriptSafe (latePlant [.accept, .reject]).arriving := by decide
  have hc : lateSwitch.ScriptSafe := by decide
  have hnode : (latePlant [.accept, .reject]).model.HasNode "home1" := by decide
  have hresult : unboundPlay.result? 0 =
      some (.error (.rejected (.deferredBinding ⟨"home1", "s1"⟩))) := by decide +kernel
  have happlied : ⟨0, .start, some "s1", .applied⟩ ∈ unboundPlay.events := by decide +kernel
  exact ⟨hsettings, hmodel, harriving, hc, hnode, hresult, happlied,
    (occupied_of_start hsettings hmodel harriving hc hnode unboundMoves hresult).2 happlied⟩

end Linker

end Wiring
