import Wiring.Proofs.Linker.Ordered
import Wiring.Proofs.Linker.Safe

/-!
# No component is started twice

Whether an id is free is looked up when a start script is made, and the script is
applied later.  In between the task of the start holds the turn on the id, and only
start scripts create components; so the id is still free when the script is applied.

`Exclusive` says so of a linker: what an open script creates is not in the model, and
its task holds the turn on it.  Every move keeps this together with the trace of all
operations applied so far, `Exclusive.move`.
-/

namespace Wiring.Linker

/-- The operations that the engine in memory applies at a move. -/
def appliedBy {σ : Type} (l : Linker σ) : Move → Script
  | .act task =>
    match l.nextAct? task with
    | none => []
    | some h => if h.verdict = .accept then Script.ofText h.text else []
  | .step _ | .answer _ => []

/-- The operations that the engine in memory applies in a play, in their order. -/
def applied (l : Linker Plant) : List Move → Script
  | [] => []
  | m :: moves => l.appliedBy m ++ (l.move Plant.engine m).applied moves

theorem appliedBy_of_open {σ : Type} {l : Linker σ} {task : Nat} {h : Held}
    (hnext : l.nextAct? task = some h) (hopen : h.IsOpen) :
    l.appliedBy (.act task) = Script.ofText h.text := by
  simp only [appliedBy, hnext, if_pos hopen.1]

theorem appliedBy_of_idle {σ : Type} {l : Linker σ} {task : Nat}
    (hidle : ¬ ∃ h, l.nextAct? task = some h ∧ h.IsOpen) : l.appliedBy (.act task) = [] := by
  cases hnext : l.nextAct? task with
  | none => simp only [appliedBy, hnext]
  | some h =>
    obtain ⟨-, -, hacted⟩ := nextAct?_eq_some hnext
    have hverdict : h.verdict ≠ .accept := fun haccept => hidle ⟨h, hnext, haccept, hacted⟩
    simp only [appliedBy, hnext, if_neg hverdict]

/-- Scripts that are open create components on the node only, which the model does not
have and whose turns their tasks hold. -/
structure Exclusive (l : Linker Plant) (trace : Script) : Prop where
  ordered : l.Ordered
  safe : l.Safe
  tracks : l.engine.model.Tracks l.settings.nodeName trace
  onNode : ∀ path ∈ trace.addedComponents, path.node = l.settings.nodeName
  pending : ∀ h ∈ l.held, h.IsOpen → ∀ path ∈ (Script.ofText h.text).addedComponents,
    path.node = l.settings.nodeName ∧ path.id ∉ l.engine.model.ids l.settings.nodeName ∧
      ∃ request, l.requests[h.task]? = some request ∧ request.turn? = some path.id
  once : ∀ h ∈ l.held, h.IsOpen →
    ((Script.ofText h.text).addedComponents.map (·.id)).Nodup

namespace Exclusive

variable {l : Linker Plant} {trace : Script}

theorem opening {settings : Settings} {plant : Plant} {requests : List Request}
    (hsafe : (opening settings plant requests).Safe)
    (hnode : plant.model.HasNode settings.nodeName)
    (hids : (plant.model.ids settings.nodeName).Nodup) :
    (Linker.opening settings plant requests).Exclusive [] where
  ordered := ordered_opening settings plant requests
  safe := hsafe
  tracks := ⟨hnode, hids, Script.addsApart_nil, fun path h => absurd h (Script.not_leaves_nil path)⟩
  onNode := fun _ hpath => absurd hpath List.not_mem_nil
  pending := fun _ hheld => absurd hheld List.not_mem_nil
  once := fun _ hheld => absurd hheld List.not_mem_nil

/-- Open scripts of different tasks create different components. -/
theorem task_eq_of_id_eq (hl : l.Exclusive trace) {h h' : Held} (hheld : h ∈ l.held)
    (hheld' : h' ∈ l.held) (hopen : h.IsOpen) (hopen' : h'.IsOpen) {path path' : ComponentPath}
    (hpath : path ∈ (Script.ofText h.text).addedComponents)
    (hpath' : path' ∈ (Script.ofText h'.text).addedComponents) (hid : path.id = path'.id) :
    h.task = h'.task := by
  obtain ⟨-, -, request, hrequest, hturn⟩ := hl.pending h hheld hopen path hpath
  obtain ⟨-, -, request', hrequest', hturn'⟩ := hl.pending h' hheld' hopen' path' hpath'
  exact hl.ordered.task_eq_of_turn hheld hheld' hrequest hrequest' hturn (hid ▸ hturn')

/-- Requests stay what they are, so what is pending stays pending while neither the
model nor the open scripts change. -/
theorem pending_setPhase (hl : l.Exclusive trace) (task : Nat) (phase : Phase) {h : Held}
    (hheld : h ∈ l.held) (hopen : h.IsOpen) {path : ComponentPath}
    (hpath : path ∈ (Script.ofText h.text).addedComponents) :
    path.node = l.settings.nodeName ∧ path.id ∉ l.engine.model.ids l.settings.nodeName ∧
      ∃ request, (l.setPhase task phase).requests[h.task]? = some request ∧
        request.turn? = some path.id := by
  rw [requests_setPhase]
  exact hl.pending h hheld hopen path hpath

theorem submit (hl : l.Exclusive trace) {task : Nat} {t : Task} {s : Submission}
    (ht : l.tasks[task]? = some t) (hwaits : ¬ t.phase.Waits)
    (hsubmits : Submits Plant.engine l task t s) :
    (l.submit Plant.engine task s).Exclusive trace := by
  have hfits := hl.safe.fits_of_submits ht hsubmits
  have hmodel : (l.submit Plant.engine task s).engine.model = l.engine.model :=
    Plant.model_receive l.engine s.text
  have hrequest := getElem?_requests ht
  rw [← l.requests_setPhase task (.submitted s none)] at hrequest
  refine ⟨hl.ordered.submit ht hwaits hsubmits, hl.safe.submit ht hsubmits, ?_, hl.onNode,
    ?_, ?_⟩
  · rw [hmodel]
    exact hl.tracks
  · rw [hmodel]
    intro h hheld hopen path hpath
    rcases List.mem_append.1 hheld with hold | hnew
    · exact hl.pending_setPhase task _ hold hopen hpath
    · -- The id of the new script was free in the very model it was synthesized from.
      obtain rfl := List.mem_singleton.1 hnew
      obtain ⟨hlocal, -, hfree, hturn⟩ := hfits.components path hpath
      exact ⟨hlocal, hfree, t.request, hrequest, hturn⟩
  · intro h hheld hopen
    rcases List.mem_append.1 hheld with hold | hnew
    · exact hl.once h hold hopen
    · obtain rfl := List.mem_singleton.1 hnew
      exact hfits.once

theorem withNotices (hl : l.Exclusive trace) (events : List (Event Nat))
    (notices : List (Nat × Notice)) :
    ({ l with events, notices } : Linker Plant).Exclusive trace :=
  ⟨hl.ordered.withNotices events notices, hl.safe.withNotices events notices, hl.tracks,
    hl.onNode, hl.pending, hl.once⟩

theorem step (hl : l.Exclusive trace) {task : Nat} {next : Linker Plant}
    (h : l.step Plant.engine task = some next) : next.Exclusive trace := by
  have hordered := hl.ordered.step h
  have hsafe := hl.safe.step h
  obtain ⟨t, ht, hsteps⟩ := steps_of_step h
  have hwaits := hsteps.not_waits
  cases hsteps with
  | finish events notices result =>
    refine ⟨hordered, hsafe, hl.tracks, hl.onNode, ?_, hl.once⟩
    exact fun h hheld hopen path hpath => hl.pending_setPhase task _ hheld hopen hpath
  | join notices hjoins =>
    refine ⟨hordered, hsafe, hl.tracks, hl.onNode, ?_, hl.once⟩
    exact fun h hheld hopen path hpath => hl.pending_setPhase task _ hheld hopen hpath
  | submit events notices hsubmits =>
    exact (hl.withNotices events notices).submit ht hwaits
      (hsubmits.withNotices events notices)

/-- The engine applies an open script: what the other open scripts create is still
missing, since their tasks hold other turns. -/
theorem accept (hl : l.Exclusive trace) {task : Nat} {h : Held}
    (hnext : l.nextAct? task = some h) (hopen : h.IsOpen) :
    (l.act Plant.engine task).Exclusive (trace ++ Script.ofText h.text) := by
  obtain ⟨hheld, htask, -⟩ := nextAct?_eq_some hnext
  obtain ⟨hsettings, hrequests⟩ := frame_act Plant.engine l task
  have hmodel : (l.act Plant.engine task).engine = l.engine.act h.text .accept := by
    rw [act_of_some hnext, hopen.1]
    rfl
  refine ⟨hl.ordered.act Plant.engine task, hl.safe.act task, ?_, fun path hpath => ?_,
    fun h' hheld' hopen' path hpath => ?_, fun h' hheld' hopen' => ?_⟩
  · have hnew : (l.engine.model.ids l.settings.nodeName ++
        (Script.ofText h.text).addedComponents.map (·.id)).Nodup := by
      refine List.nodup_append.2 ⟨hl.tracks.nodup, hl.once h hheld hopen, ?_⟩
      intro id hid id' hid' heq
      obtain ⟨path, hpath, rfl⟩ := List.mem_map.1 hid'
      exact (hl.pending h hheld hopen path hpath).2.1 (heq ▸ hid)
    have htracks := hl.tracks.applyScript
      (fun path hpath => (hl.pending h hheld hopen path hpath).1) hnew
    rw [hsettings, hmodel, Plant.model_act_accept]
    exact ⟨htracks.hasNode, htracks.nodup, htracks.apart, htracks.leaves⟩
  · rw [hsettings]
    rw [Script.addedComponents_append] at hpath
    rcases List.mem_append.1 hpath with hold | hnew
    · exact hl.onNode path hold
    · exact (hl.pending h hheld hopen path hnew).1
  · obtain ⟨hbefore, hother⟩ := mem_of_open_act hheld' hopen'
    obtain ⟨hlocal, hfree, hturn⟩ := hl.pending h' hbefore hopen' path hpath
    rw [hsettings, hrequests, hmodel, Plant.ids_act_accept]
    refine ⟨hlocal, fun hmem => ?_, hturn⟩
    rcases Model.mem_ids_applyScript hmem with hold | ⟨path', hpath', hsame⟩
    · exact hfree hold
    · -- The id was taken by the applied script, whose task holds the turn on it.
      have hclash := hl.task_eq_of_id_eq hheld hbefore hopen hopen' hpath' hpath hsame
      exact hother (hclash.symm.trans htask)
  · exact hl.once h' (mem_of_open_act hheld' hopen').1 hopen'

theorem act (hl : l.Exclusive trace) (task : Nat) :
    (l.act Plant.engine task).Exclusive (trace ++ l.appliedBy (.act task)) := by
  by_cases happlies : ∃ h, l.nextAct? task = some h ∧ h.IsOpen
  · obtain ⟨h, hnext, hopen⟩ := happlies
    rw [appliedBy_of_open hnext hopen]
    exact hl.accept hnext hopen
  · obtain ⟨hsettings, hrequests⟩ := frame_act Plant.engine l task
    have hengine := engine_act_of_idle happlies
    rw [appliedBy_of_idle happlies, List.append_nil]
    refine ⟨hl.ordered.act Plant.engine task, hl.safe.act task, ?_, fun path hpath => ?_,
      fun h hheld hopen path hpath => ?_, fun h hheld hopen => ?_⟩
    · rw [hsettings, hengine]
      exact hl.tracks
    · rw [hsettings]
      exact hl.onNode path hpath
    · rw [hsettings, hrequests, hengine]
      exact hl.pending h (mem_of_open_act hheld hopen).1 hopen path hpath
    · exact hl.once h (mem_of_open_act hheld hopen).1 hopen

theorem answer (hl : l.Exclusive trace) (task : Nat) :
    (l.answer task).Exclusive trace := by
  obtain ⟨hsettings, hrequests⟩ := frame_answer l task
  have hengine := engine_answer l task
  refine ⟨hl.ordered.answer task, hl.safe.answer task, ?_, fun path hpath => ?_,
    fun h hheld hopen path hpath => ?_, fun h hheld hopen => ?_⟩
  · rw [hsettings, hengine]
    exact hl.tracks
  · rw [hsettings]
    exact hl.onNode path hpath
  · rw [hsettings, hrequests, hengine]
    exact hl.pending h (mem_of_mem_answer hheld) hopen path hpath
  · exact hl.once h (mem_of_mem_answer hheld) hopen

/-- Every move keeps the pending starts exclusive. -/
theorem move (hl : l.Exclusive trace) (m : Move) :
    (l.move Plant.engine m).Exclusive (trace ++ l.appliedBy m) := by
  cases m with
  | step task =>
    rw [Linker.move, appliedBy, List.append_nil]
    cases h : l.step Plant.engine task with
    | none => exact hl
    | some next => exact hl.step h
  | act task => exact hl.act task
  | answer task =>
    rw [appliedBy, List.append_nil]
    exact hl.answer task

theorem play (hl : l.Exclusive trace) (moves : List Move) :
    (l.play Plant.engine moves).Exclusive (trace ++ l.applied moves) := by
  induction moves generalizing l trace with
  | nil =>
    rw [applied, List.append_nil]
    exact hl
  | cons m moves ih =>
    rw [applied, ← List.append_assoc]
    exact ih (hl.move m)

end Exclusive

/-! ## The model and the applied operations -/

theorem model_step {l next : Linker Plant} {task : Nat}
    (h : l.step Plant.engine task = some next) : next.engine.model = l.engine.model := by
  obtain ⟨t, -, hsteps⟩ := steps_of_step h
  cases hsteps with
  | finish events notices result => rfl
  | join notices hjoins => rfl
  | submit events notices hsubmits => exact Plant.model_receive l.engine _

/-- What a move does to the nodes of the model is what it applies to them. -/
theorem nodes_move (l : Linker Plant) (m : Move) :
    (l.move Plant.engine m).engine.model.nodes =
      (l.engine.model.applyScript (l.appliedBy m)).nodes := by
  cases m with
  | step task =>
    rw [move, appliedBy]
    cases h : l.step Plant.engine task with
    | none => rfl
    | some next =>
      rw [Option.getD_some, model_step h]
      rfl
  | act task =>
    rw [move]
    by_cases happlies : ∃ h, l.nextAct? task = some h ∧ h.IsOpen
    · obtain ⟨h, hnext, hopen⟩ := happlies
      rw [appliedBy_of_open hnext hopen, act_of_some hnext, hopen.1]
      exact Plant.nodes_act_accept l.engine h.text
    · rw [appliedBy_of_idle happlies, engine_act_of_idle happlies]
      rfl
  | answer task =>
    rw [move, appliedBy, engine_answer]
    rfl

/-- The nodes of the model are what the applied operations make of them. -/
theorem nodes_play (l : Linker Plant) (moves : List Move) :
    (l.play Plant.engine moves).engine.model.nodes =
      (l.engine.model.applyScript (l.applied moves)).nodes := by
  induction moves generalizing l with
  | nil => rfl
  | cons m moves ih =>
    have hrest := ih (l.move Plant.engine m)
    rw [Model.nodes_applyScript_congr (nodes_move l m)] at hrest
    rw [applied, Model.applyScript_append]
    exact hrest

/-! ## Main statement -/

variable {settings : Settings} {plant : Plant} {requests : List Request}

/-- Whatever is asked and in whatever order things happen, no id stands twice on the
node of the linker, and between two creations of one component that were applied, its
removal was applied; all creations are on that node, and the nodes of the model are
what the applied operations make of them. -/
theorem ids_nodup_and_addsApart (hsettings : settings.ScriptSafe)
    (hmodel : plant.model.ScriptSafe settings.nodeName)
    (harriving : Package.ScriptSafe plant.arriving)
    (hrequests : ∀ request ∈ requests, request.ScriptSafe)
    (hnode : plant.model.HasNode settings.nodeName)
    (hids : (plant.model.ids settings.nodeName).Nodup) (moves : List Move) :
    (((opening settings plant requests).play Plant.engine moves).engine.model.ids
        settings.nodeName).Nodup ∧
      Script.AddsApart ((opening settings plant requests).applied moves) ∧
      (∀ path ∈ Script.addedComponents ((opening settings plant requests).applied moves),
        path.node = settings.nodeName) ∧
      ((opening settings plant requests).play Plant.engine moves).engine.model.nodes =
        (plant.model.applyScript ((opening settings plant requests).applied moves)).nodes := by
  have hsafe := safe_opening hsettings hmodel harriving hrequests
  have hplay := (Exclusive.opening hsafe hnode hids).play moves
  have hsame := (frame_play Plant.engine (opening settings plant requests) moves).1
  rw [List.nil_append] at hplay
  have hnodup := hplay.tracks.nodup
  have honNode := hplay.onNode
  rw [hsame] at hnodup honNode
  exact ⟨hnodup, hplay.tracks.apart, honNode, nodes_play _ moves⟩

/-- A node with a lamp. -/
def litPlant : Plant where
  model := { nodes := [{ name := "home1", components := [⟨"light_a", "org.activehome.Light"⟩] }] }

/-- Two starts of one switch at a time, its removal, and a start of it again. -/
def restarts : List Request :=
  let switch : Component := {
    typeName := "org.activehome.Switch"
    id := "s1"
    portBindings := .ofList [("o", ["home1.light_a.in"])] }
  [.start switch, .start switch, .stop "s1", .start switch]

theorem ids_nodup_and_addsApart_restarts :
    (Settings.forNode "home1").ScriptSafe ∧ litPlant.model.ScriptSafe "home1" ∧
      Package.ScriptSafe litPlant.arriving ∧ (∀ request ∈ restarts, request.ScriptSafe) ∧
      litPlant.model.HasNode "home1" ∧ (litPlant.model.ids "home1").Nodup ∧
      let l := opening (.forNode "home1") litPlant restarts
      let moves : List Move :=
        [.step 0, .step 1, .step 0, .act 0, .answer 0, .step 0, .step 1, .step 2, .step 2,
          .act 2, .answer 2, .step 2, .step 3, .step 3, .act 3]
      ((l.play Plant.engine moves).engine.model.ids "home1").Nodup ∧
        Script.AddsApart (l.applied moves) ∧
        (∀ path ∈ Script.addedComponents (l.applied moves), path.node = "home1") ∧
        (l.play Plant.engine moves).engine.model.nodes =
          (litPlant.model.applyScript (l.applied moves)).nodes := by
  have hsettings : (Settings.forNode "home1").ScriptSafe := by decide
  have hmodel : litPlant.model.ScriptSafe "home1" := by decide
  have harriving : Package.ScriptSafe litPlant.arriving := by decide
  have hrequests : ∀ request ∈ restarts, request.ScriptSafe := by decide
  have hnode : litPlant.model.HasNode "home1" := by decide
  have hids : (litPlant.model.ids "home1").Nodup := by decide
  exact ⟨hsettings, hmodel, harriving, hrequests, hnode, hids,
    ids_nodup_and_addsApart hsettings hmodel harriving hrequests hnode hids _⟩

end Wiring.Linker
