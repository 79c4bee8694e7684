import Wiring.Proofs.Linker.Play
import Wiring.Proofs.Script.RoundTrip
import Wiring.Proofs.Synthesis.Scripts

/-!
# Safe plays

A linker over the engine in memory is safe when its settings, its requests, the model
and the packages to arrive are safe for scripts.  Every play keeps it safe, since a
safe script brings safe names into the model only.  In a safe linker each script that
is submitted is read back as it was synthesized, so what it creates is known when it is
submitted, `fits_of_submits`.
-/

namespace Wiring

/-! ## The script of a text -/

/-- The script that a text describes; a text that is no script has the empty one. -/
def Script.ofText (text : String) : Script :=
  match Script.parse text with
  | .error _ => []
  | .ok script => script

theorem Script.ofText_text {script : Script} (h : script.Expressible) :
    Script.ofText script.text = script := by
  rw [ofText, parse_text_of_expressible h]

theorem Model.applyText_eq (m : Model) (text : String) :
    m.applyText text = m.applyScript (Script.ofText text) := by
  rw [applyText, Script.ofText]
  cases Script.parse text with
  | error failure => rfl
  | ok script => rfl

/-- Acting on an accepted script applies it. -/
theorem Plant.model_act_accept (plant : Plant) (text : String) :
    (plant.act text .accept).model =
      { plant.model.applyScript (Script.ofText text) with
        packages := (plant.model.applyScript (Script.ofText text)).packages ++
          plant.arriving.take 1 } := by
  rw [act, Model.applyText_eq]

theorem Plant.nodes_act_accept (plant : Plant) (text : String) :
    (plant.act text .accept).model.nodes =
      (plant.model.applyScript (Script.ofText text)).nodes := by
  rw [model_act_accept]

theorem Plant.ids_act_accept (plant : Plant) (text node : String) :
    (plant.act text .accept).model.ids node =
      (plant.model.applyScript (Script.ofText text)).ids node := by
  rw [model_act_accept]
  rfl

theorem Plant.hubNames_act_accept (plant : Plant) (text : String) :
    (plant.act text .accept).model.hubNames =
      plant.model.hubNames ++ (Script.ofText text).addedChannels.map (·.name) := by
  rw [← Model.hubNames_applyScript, model_act_accept]
  rfl

theorem Plant.act_of_ne_accept (plant : Plant) (text : String) {verdict : Verdict}
    (h : verdict ≠ .accept) : plant.act text verdict = plant := by
  cases verdict with
  | accept => exact absurd rfl h
  | reject => rfl
  | drop => rfl

theorem Plant.model_receive (plant : Plant) (text : String) :
    (plant.receive text).2.model = plant.model := by
  rw [receive]
  split <;> rfl

theorem Plant.arriving_receive (plant : Plant) (text : String) :
    (plant.receive text).2.arriving = plant.arriving := by
  rw [receive]
  split <;> rfl

/-- A plant stays safe when it applies a script that creates components of safe names. -/
theorem Plant.scriptSafe_act {plant : Plant} {node text : String}
    (hmodel : plant.model.ScriptSafe node) (harriving : Package.ScriptSafe plant.arriving)
    (hcreated : ∀ path ∈ (Script.ofText text).addedComponents, IsName path.id) :
    (plant.act text .accept).model.ScriptSafe node ∧
      Package.ScriptSafe (plant.act text .accept).arriving := by
  rw [Plant.model_act_accept]
  refine ⟨⟨fun component hcomponent => ?_, ?_⟩, ?_⟩
  · have hid : component.name ∈ (plant.model.applyScript (Script.ofText text)).ids node :=
      List.mem_map_of_mem hcomponent
    rcases Model.mem_ids_applyScript hid with hold | ⟨path, hpath, hname⟩
    · obtain ⟨old, holdmem, holdname⟩ := List.mem_map.1 hold
      rw [← holdname]
      exact hmodel.ids old holdmem
    · rw [← hname]
      exact hcreated path hpath
  · intro d hd
    rw [Model.packages_applyScript, Package.declarationsAmong_append] at hd
    rcases List.mem_append.1 hd with hd | hd
    · exact hmodel.packages d hd
    · exact harriving d (Package.declarationsAmong_subset (List.take_subset 1 _) hd)
  · intro d hd
    exact harriving d (Package.declarationsAmong_subset (List.drop_subset 1 _) hd)

/-! ## Submissions -/

/-- A submission that creates nothing and that nothing follows. -/
structure Submission.Quiet (s : Submission) : Prop where
  creates : (Script.ofText s.text).CreatesNothing
  deferred : s.deferred? = none

/-- What a submission creates is new to a model: at most the component of its request,
on a node, and channels, each once, if its request is a start. -/
structure Submission.Fits (s : Submission) (m : Model) (node : String) (request : Request) :
    Prop where
  components : ∀ path ∈ (Script.ofText s.text).addedComponents,
    path.node = node ∧ IsName path.id ∧ path.id ∉ m.ids node ∧
      request.turn? = some path.id
  once : ((Script.ofText s.text).addedComponents.map (·.id)).Nodup
  channels : ((Script.ofText s.text).addedChannels.map (·.name)).Nodup
  fresh : ∀ channel ∈ (Script.ofText s.text).addedChannels, channel.name ∉ m.hubNames
  starts : ∀ channel ∈ (Script.ofText s.text).addedChannels, ∃ c, request = .start c
  deferred : ∀ c, s.deferred? = some c → request = .start c

theorem Submission.Quiet.fits {s : Submission} (hs : s.Quiet) (m : Model) (node : String)
    (request : Request) : s.Fits m node request where
  components := by
    rw [hs.creates.components]
    intro path hpath
    exact absurd hpath List.not_mem_nil
  once := by
    rw [hs.creates.components]
    exact List.nodup_nil
  channels := by
    rw [hs.creates.channels]
    exact List.nodup_nil
  fresh := by
    rw [hs.creates.channels]
    intro channel hchannel
    exact absurd hchannel List.not_mem_nil
  starts := by
    rw [hs.creates.channels]
    intro channel hchannel
    exact absurd hchannel List.not_mem_nil
  deferred := by
    rw [hs.deferred]
    intro c hc
    simp at hc

theorem Submission.quiet_ofScript (operation : Operation) (component? : Option String)
    {script : Script} (rejection : Rejection) (hcreates : script.CreatesNothing)
    (hscript : script.Expressible) :
    (Submission.ofScript operation component? script rejection).Quiet := by
  refine ⟨?_, rfl⟩
  change (Script.ofText script.text).CreatesNothing
  rw [Script.ofText_text hscript]
  exact hcreates

/-- A script of a start that creates new channels only, and at most its component. -/
theorem Submission.fits_ofScript {m : Model} {node : String} {c : Component}
    (operation : Operation) (component? : Option String) {script : Script}
    (rejection : Rejection) {deferred? : Option Component} (hscript : script.Expressible)
    (hcomponents : script.addedComponents = [] ∨
      script.addedComponents = [⟨node, c.id⟩] ∧ IsName c.id ∧ c.id ∉ m.ids node)
    (hchannels : script.addedChannels.Nodup ∧
      ∀ channel ∈ script.addedChannels, m.findHub channel.name = none)
    (hdeferred : ∀ c', deferred? = some c' → c' = c) :
    (Submission.ofScript operation component? script rejection deferred?).Fits m node
      (.start c) := by
  have htext : Script.ofText (Submission.ofScript operation component? script rejection
      deferred?).text = script := Script.ofText_text hscript
  refine ⟨?_, ?_, ?_, ?_, fun _ _ => ⟨c, rfl⟩, fun c' hc' => ?_⟩
  · rw [htext]
    intro path hpath
    rcases hcomponents with hnone | ⟨hone, hname, hfree⟩
    · rw [hnone] at hpath
      exact absurd hpath List.not_mem_nil
    · rw [hone, List.mem_singleton] at hpath
      rw [hpath]
      exact ⟨rfl, hname, hfree, rfl⟩
  · rw [htext]
    rcases hcomponents with hnone | ⟨hone, -⟩
    · rw [hnone]
      exact List.nodup_nil
    · rw [hone]
      exact List.nodup_singleton c.id
  · rw [htext]
    exact nodup_map_name hchannels.1
  · rw [htext]
    intro channel hchannel
    exact Model.findHub_eq_none_iff.1 (hchannels.2 channel hchannel)
  · rw [hdeferred c' hc']

/-! ## Safe linkers -/

/-- The request of a task is safe, and what the task still has to do about it. -/
structure Task.Safe (t : Task) : Prop where
  request : t.request.ScriptSafe
  lined : ∀ s, t.phase = .inLine (some s) → s.Quiet
  deferred : ∀ s answer? c, t.phase = .submitted s answer? → s.deferred? = some c →
    t.request = .start c

theorem Task.safe_asked {request : Request} (h : request.ScriptSafe) :
    Task.Safe { request } where
  request := h
  lined := by
    intro s hphase
    simp at hphase
  deferred := by
    intro s answer? c hphase
    simp at hphase

theorem Task.Safe.told {t : Task} (ht : t.Safe) (verdict : Verdict) :
    (t.told verdict).Safe := by
  unfold Task.told
  split
  · rename_i s hphase
    refine ⟨ht.request, fun s' hs' => ?_, fun s' answer? c hs' hc => ?_⟩
    · simp at hs'
    · obtain ⟨rfl, -⟩ := Phase.submitted.inj hs'
      exact ht.deferred s none c hphase hc
  · exact ht

namespace Linker

/-- Nothing can bring an unsafe name into a script. -/
structure Safe (l : Linker Plant) : Prop where
  settings : l.settings.ScriptSafe
  tasks : ∀ t ∈ l.tasks, t.Safe
  model : l.engine.model.ScriptSafe l.settings.nodeName
  arriving : Package.ScriptSafe l.engine.arriving
  created : ∀ h ∈ l.held, h.IsOpen → ∀ path ∈ (Script.ofText h.text).addedComponents,
    IsName path.id

theorem safe_opening {settings : Settings} {plant : Plant} {requests : List Request}
    (hsettings : settings.ScriptSafe) (hmodel : plant.model.ScriptSafe settings.nodeName)
    (harriving : Package.ScriptSafe plant.arriving)
    (hrequests : ∀ request ∈ requests, request.ScriptSafe) :
    (opening settings plant requests).Safe where
  settings := hsettings
  tasks := by
    intro t ht
    obtain ⟨request, hrequest, rfl⟩ := List.mem_map.1 ht
    exact Task.safe_asked (hrequests request hrequest)
  model := hmodel
  arriving := harriving
  created := fun _ hheld => absurd hheld List.not_mem_nil

namespace Safe

variable {l : Linker Plant} {task : Nat} {t : Task}

theorem synthesis (hl : l.Safe) : (l.synthesis Plant.engine).ScriptSafe :=
  ⟨hl.settings, hl.model⟩

theorem of_getElem? (hl : l.Safe) (ht : l.tasks[task]? = some t) : t.Safe :=
  hl.tasks t (List.mem_of_getElem? ht)

/-- What a submission of a safe linker creates is new to the model. -/
theorem fits_of_submits (hl : l.Safe) (ht : l.tasks[task]? = some t) {s : Submission}
    (h : Submits Plant.engine l task t s) :
    s.Fits l.engine.model l.settings.nodeName t.request := by
  have hs := hl.synthesis
  have htask := hl.of_getElem? ht
  cases h with
  | @removal types =>
    have hcreates := Synthesis.createsNothing_stopByTypeScript (l.synthesis Plant.engine) types
    have hscript := Synthesis.expressible_stopByTypeScript hs types
    exact (Submission.quiet_ofScript _ _ _ hcreates hscript).fits _ _ _
  | pushed => exact htask.request.elim
  | ready hturn => exact (htask.lined s rfl).fits _ _ _
  | @start c script typeResolved hturn hplan =>
    -- A start is planned only while its id is free.
    obtain ⟨hfree, hscript⟩ := Synthesis.planStart_eq_script hplan
    have hc : c.ScriptSafe := htask.request
    have hresolved := hc.resolve (m := l.engine.model) hl.model.packages
    refine Submission.fits_ofScript _ _ _ (Synthesis.expressible_startScript hs hresolved hscript)
      (Or.inr ⟨?_, hc.id, ?_⟩) (Synthesis.addedChannels_startScript hscript) ?_
    · rw [Synthesis.addedComponents_startScript hscript, Component.path,
        Component.id_resolve]
      rfl
    · exact Model.findComponent_eq_none_iff.1 hfree
    · intro c' hc'
      split at hc'
      · simp at hc'
      · exact (Option.some.inj hc').symm
  | @bindings request s₀ c script hdeferred hplan =>
    have hscript := Synthesis.planDeferred_eq_script hplan
    -- Bindings follow the script of a start, and are those of its component.
    obtain rfl : request = .start c := htask.deferred s₀ _ c rfl hdeferred
    have hc : c.ScriptSafe := htask.request
    have hid : IsName (c.resolve l.engine.model).component.id := by
      rw [Component.id_resolve]
      exact hc.id
    refine Submission.fits_ofScript _ _ _ (Synthesis.expressible_bindingScript hs hid hscript)
      (Or.inl (Synthesis.addedComponents_bindingScript hscript))
      (Synthesis.addedChannels_bindingScript hscript) ?_
    intro c' hc'
    simp at hc'

/-- A script that a task takes into its line creates nothing. -/
theorem quiet_of_joins (hl : l.Safe) (ht : l.tasks[task]? = some t) {id : String}
    {s : Submission} (h : Joins Plant.engine l t id (some s)) : s.Quiet := by
  have hs := hl.synthesis
  have htask := hl.of_getElem? ht
  cases h with
  | stop hscript =>
    have hid : IsName id := htask.request
    exact Submission.quiet_ofScript _ _ _ (Synthesis.createsNothing_removeScript hscript)
      (Synthesis.expressible_removeScript hs hid hscript)
  | update hscript =>
    obtain ⟨hid, hkey⟩ := htask.request
    exact Submission.quiet_ofScript _ _ _ (Synthesis.createsNothing_updateScript hscript)
      (Synthesis.expressible_updateScript hs hid hkey hscript)

/-! ## Every move keeps a linker safe -/

theorem mem_modify {α : Type} {l : List α} {i : Nat} {f : α → α} {a : α}
    (h : a ∈ l.modify i f) : a ∈ l ∨ ∃ b, l[i]? = some b ∧ a = f b := by
  obtain ⟨j, hj⟩ := List.mem_iff_getElem?.1 h
  rw [List.getElem?_modify, Option.map_eq_map, Option.map_eq_some_iff] at hj
  obtain ⟨b, hb, hab⟩ := hj
  split at hab
  · rename_i hij
    exact Or.inr ⟨b, hij ▸ hb, hab.symm⟩
  · exact Or.inl (hab ▸ List.mem_of_getElem? hb)

theorem tasks_setPhase (hl : l.Safe) (ht : l.tasks[task]? = some t) {phase : Phase}
    (hset : Task.Safe { t with phase }) : ∀ u ∈ (l.setPhase task phase).tasks, u.Safe := by
  intro u hu
  rcases mem_modify hu with hold | ⟨before, hbefore, rfl⟩
  · exact hl.tasks u hold
  · rw [ht] at hbefore
    exact Option.some.inj hbefore ▸ hset

theorem withNotices (hl : l.Safe) (events : List (Event Nat))
    (notices : List (Nat × Notice)) : ({ l with events, notices } : Linker Plant).Safe :=
  ⟨hl.settings, hl.tasks, hl.model, hl.arriving, hl.created⟩

theorem finish (hl : l.Safe) (ht : l.tasks[task]? = some t)
    (result : Except Failure Bool) : (l.finish task result).Safe := by
  have hset : Task.Safe { t with phase := .finished result } := by
    refine ⟨(hl.of_getElem? ht).request, fun s hphase => ?_, fun s answer? c hphase => ?_⟩
    · simp at hphase
    · simp at hphase
  exact ⟨hl.settings, hl.tasks_setPhase ht hset, hl.model, hl.arriving, hl.created⟩

theorem joinLine (hl : l.Safe) (ht : l.tasks[task]? = some t) {id : String}
    {script? : Option Submission} (hjoins : Joins Plant.engine l t id script?) :
    (l.joinLine task id script?).Safe := by
  have hset : Task.Safe { t with phase := .inLine script? } := by
    refine ⟨(hl.of_getElem? ht).request, fun s hphase => ?_, fun s answer? c hphase => ?_⟩
    · obtain rfl := Phase.inLine.inj hphase
      exact hl.quiet_of_joins ht hjoins
    · simp at hphase
  exact ⟨hl.settings, hl.tasks_setPhase ht hset, hl.model, hl.arriving, hl.created⟩

theorem submit (hl : l.Safe) (ht : l.tasks[task]? = some t) {s : Submission}
    (hsubmits : Submits Plant.engine l task t s) :
    (l.submit Plant.engine task s).Safe := by
  have hfits := hl.fits_of_submits ht hsubmits
  have hset : Task.Safe { t with phase := .submitted s none } := by
    refine ⟨(hl.of_getElem? ht).request, fun s' hphase => ?_, fun s' answer? c hphase hc => ?_⟩
    · simp at hphase
    · obtain ⟨rfl, -⟩ := Phase.submitted.inj hphase
      exact hfits.deferred c hc
  refine ⟨hl.settings, hl.tasks_setPhase ht hset, ?_, ?_, fun h hheld hopen => ?_⟩
  · change ((l.engine.receive s.text).2.model).ScriptSafe l.settings.nodeName
    rw [Plant.model_receive]
    exact hl.model
  · change Package.ScriptSafe (l.engine.receive s.text).2.arriving
    rw [Plant.arriving_receive]
    exact hl.arriving
  · rcases List.mem_append.1 hheld with hold | hnew
    · exact hl.created h hold hopen
    · have htext : h.text = s.text := by rw [List.mem_singleton.1 hnew]
      rw [htext]
      intro path hpath
      exact (hfits.components path hpath).2.1

theorem step {next : Linker Plant} (hl : l.Safe) (h : l.step Plant.engine task = some next) :
    next.Safe := by
  obtain ⟨t, ht, hsteps⟩ := steps_of_step h
  cases hsteps with
  | finish events notices result => exact (hl.withNotices events notices).finish ht result
  | join notices hjoins =>
    have hjoins' := hjoins.withNotices l.events notices
    exact (hl.withNotices l.events notices).joinLine ht hjoins'
  | submit events notices hsubmits =>
    have hsubmits' := hsubmits.withNotices events notices
    exact (hl.withNotices events notices).submit ht hsubmits'

theorem scriptSafe_act (hl : l.Safe) {h : Held} (hnext : l.nextAct? task = some h) :
    (l.engine.act h.text h.verdict).model.ScriptSafe l.settings.nodeName ∧
      Package.ScriptSafe (l.engine.act h.text h.verdict).arriving := by
  obtain ⟨hheld, -, hacted⟩ := nextAct?_eq_some hnext
  by_cases haccept : h.verdict = .accept
  · rw [haccept]
    exact Plant.scriptSafe_act hl.model hl.arriving (hl.created h hheld ⟨haccept, hacted⟩)
  · rw [Plant.act_of_ne_accept _ _ haccept]
    exact ⟨hl.model, hl.arriving⟩

theorem act (hl : l.Safe) (task : Nat) : (l.act Plant.engine task).Safe := by
  cases hnext : l.nextAct? task with
  | none =>
    rw [act_of_none hnext]
    exact hl
  | some h =>
    obtain ⟨hmodel, harriving⟩ := hl.scriptSafe_act hnext
    have hcreated : ∀ h' ∈ (l.act Plant.engine task).held, h'.IsOpen →
        ∀ path ∈ (Script.ofText h'.text).addedComponents, IsName path.id :=
      fun h' hheld' hopen => hl.created h' (mem_of_open_act hheld' hopen).1 hopen
    rw [act_of_some hnext] at hcreated ⊢
    exact ⟨hl.settings, hl.tasks, hmodel, harriving, hcreated⟩

theorem answer (hl : l.Safe) (task : Nat) : (l.answer task).Safe := by
  rcases answer_eq l task with heq | ⟨h, hheld, -, -, heq⟩
  · rw [heq]
    exact hl
  · rw [heq]
    refine ⟨hl.settings, fun t ht => ?_, hl.model, hl.arriving, fun h' hheld' hopen => ?_⟩
    · rcases mem_modify ht with hold | ⟨before, hbefore, rfl⟩
      · exact hl.tasks t hold
      · exact (hl.of_getElem? hbefore).told h.verdict
    · exact hl.created h' (List.mem_filter.1 hheld').1 hopen

/-- Every move keeps a linker safe. -/
theorem move (hl : l.Safe) (m : Move) : (l.move Plant.engine m).Safe := by
  cases m with
  | step task =>
    rw [Linker.move]
    cases h : l.step Plant.engine task with
    | none => exact hl
    | some next => exact hl.step h
  | act task => exact hl.act task
  | answer task => exact hl.answer task

end Safe

/-! ## Idle acts -/

/-- Only an open script makes the engine in memory apply something. -/
theorem engine_act_of_idle {l : Linker Plant} {task : Nat}
    (hidle : ¬ ∃ h, l.nextAct? task = some h ∧ h.IsOpen) :
    (l.act Plant.engine task).engine = l.engine := by
  cases hnext : l.nextAct? task with
  | none => rw [act_of_none hnext]
  | some h =>
    obtain ⟨-, -, hacted⟩ := nextAct?_eq_some hnext
    have hverdict : h.verdict ≠ .accept := fun haccept => hidle ⟨h, hnext, haccept, hacted⟩
    rw [act_of_some hnext]
    exact Plant.act_of_ne_accept l.engine h.text hverdict

end Linker

end Wiring
