import Wiring.Proofs.Linker.LoneStart

/-!
# A start undone

A start and a stop of one component, over a plant that accepts every script and where no
package arrives.  The stop takes the component away again, so all nodes and packages are as
they were before the start; what is left are the channels that the start has created, behind
those that were there, `undone_of_stop`.

When no package arrives, a type that was unknown when the component was started is unknown
afterwards, and no bindings follow.
-/

namespace Wiring

/-! ## Plans without arrivals -/

namespace Synthesis

variable {s : Synthesis} {c : Component} {script : Script}

theorem typeResolved_of_planStart {typeResolved : Bool}
    (h : s.planStart c = .ok (.script script typeResolved)) :
    typeResolved = (c.resolve s.model).typeResolved := by
  unfold planStart at h
  split at h
  · simp at h
  · dsimp only at h
    split at h
    · simp at h
    · exact (StartPlan.script.inj (Except.ok.inj h)).2.symm

/-- A type that is unknown leaves a component unbound. -/
theorem planDeferred_of_unknown (h : (c.resolve s.model).typeResolved = false) :
    s.planDeferred c = .nothing := by
  simp only [planDeferred, h, Bool.not_false, if_true]

/-- The script that removes a component that was started. -/
theorem removeScript_of_valid (hvalid : c.validate = .ok ()) :
    s.removeScript c.id = .ok [.remove (c.path s.node)] := by
  have hid : ¬ Text.isBlankText c.id = true := by
    unfold Component.validate at hvalid
    split at hvalid
    · simp at hvalid
    · rename_i hblank
      exact hblank
  have hpath : s.localPath c.id = .ok (c.path s.node) := by
    rw [localPath, if_neg hid]
    rfl
  rw [removeScript, hpath]
  rfl

/-! ## The model after both scripts -/

/-- A start and the removal of its component leave behind nothing but the channels of the
start. -/
theorem startScript_undone (h : s.startScript c = .ok script) {m : Model}
    (hfree : c.id ∉ m.ids s.node) :
    (m.applyScript script).applyOp (.remove (c.path s.node)) =
      { m with hubs := m.hubs ++ script.addedHubs } := by
  have hnodes := nodes_startScript_remove h hfree
  have hpackages := (Model.packages_applyOp (m.applyScript script)
    (.remove (c.path s.node))).trans (Model.packages_applyScript m script)
  have hhubs : ((m.applyScript script).applyOp (.remove (c.path s.node))).hubs =
      m.hubs ++ script.addedHubs := Model.hubs_applyScript m script
  generalize (m.applyScript script).applyOp (.remove (c.path s.node)) = undone at *
  cases undone
  exact congr (congrArg₂ Model.mk hnodes hpackages) hhubs

end Synthesis

/-! ## Plants that accept everything -/

namespace Plant

/-- A plant that accepts every script, and where no package arrives, applies the script. -/
theorem act_willing (m : Model) (text : String) :
    ({ model := m } : Plant).act text .accept =
      { model := m.applyScript (Script.ofText text) } := by
  rw [act, Model.applyText_eq]
  simp only [List.take_nil, List.drop_nil, List.append_nil]

end Plant

namespace Course

variable {settings : Settings} {m : Model}

/-- A script that nothing follows is applied. -/
theorem sent_willing (task : Nat) {s : Submission}
    (hlast : ∀ c, s.deferred? = some c →
      (⟨m.applyScript (Script.ofText s.text), settings⟩ : Synthesis).planDeferred c = .nothing) :
    (sent Plant.engine settings task s { model := m }).result = .ok true ∧
      (sent Plant.engine settings task s { model := m }).engine =
        { model := m.applyScript (Script.ofText s.text) } := by
  have hnext : sent Plant.engine settings task s { model := m } =
      (applied Plant.engine settings task s
        { model := m.applyScript (Script.ofText s.text) }).after [s.announced task]
          [(task, s.text)] := by
    rw [← Plant.act_willing]
    rfl
  have hover : applied Plant.engine settings task s
      { model := m.applyScript (Script.ofText s.text) } =
      concluded task s .accept { model := m.applyScript (Script.ofText s.text) } := by
    unfold applied
    split
    · rfl
    · rename_i c hdeferred
      split
      · rfl
      · rename_i script hscript
        have hnothing := (hlast c hdeferred).symm.trans hscript
        simp at hnothing
  rw [hnext, hover]
  exact ⟨rfl, rfl⟩

/-- A start of an id that is free submits its script, and no bindings follow. -/
theorem start_willing {task : Nat} {c : Component} {course : Course Plant} {b : Bool}
    (hcourse : OfStart Plant.engine settings task { model := m } c course)
    (hsafe : Synthesis.ScriptSafe ⟨m, settings⟩) (hc : c.ScriptSafe)
    (hfree : c.id ∉ m.ids settings.nodeName) (hresult : course.result = .ok b) :
    c.validate = .ok () ∧ ∃ script,
      (⟨m, settings⟩ : Synthesis).startScript (c.resolve m).component = .ok script ∧
      course.engine = { model := m.applyScript script } := by
  cases hcourse with
  | failed failure => simp [ended] at hresult
  | running hplan => exact absurd (Synthesis.mem_of_planStart hplan) hfree
  | @script script typeResolved hvalid hplan =>
    have hscript : (⟨m, settings⟩ : Synthesis).startScript (c.resolve m).component =
        .ok script := (Synthesis.planStart_eq_script hplan).2
    have hresolved := hc.resolve (m := m) hsafe.model.packages
    have hread : Script.ofText (startSubmission settings c script typeResolved).text = script :=
      Script.ofText_text (Synthesis.expressible_startScript hsafe hresolved hscript)
    -- Bindings would follow if the type was unknown, and then it still is.
    have hlast : ∀ c', (startSubmission settings c script typeResolved).deferred? = some c' →
        (⟨m.applyScript (Script.ofText (startSubmission settings c script typeResolved).text),
          settings⟩ : Synthesis).planDeferred c' = .nothing := by
      intro c' hc'
      obtain ⟨rfl, hunknown⟩ := deferred?_startSubmission hc'
      have hknown := Synthesis.typeResolved_of_planStart hplan
      change typeResolved = (c'.resolve m).typeResolved at hknown
      refine Synthesis.planDeferred_of_unknown ?_
      dsimp only
      rw [c'.resolve_applyScript, ← hknown]
      exact hunknown
    have hsent := sent_willing task hlast
    rw [hread] at hsent
    exact ⟨hvalid, script, hscript, hsent.2⟩

/-- A stop of a component that was started removes it. -/
theorem stop_willing (task : Nat) (m : Model) {c : Component}
    (hsettings : settings.ScriptSafe) (hid : IsName c.id) (hvalid : c.validate = .ok ()) :
    (ofRequest Plant.engine settings task { model := m } (.stop c.id)).result = .ok true ∧
      (ofRequest Plant.engine settings task { model := m } (.stop c.id)).engine =
        { model := m.applyOp (.remove (c.path settings.nodeName)) } := by
  have hscript : (⟨Plant.engine.model { model := m }, settings⟩ : Synthesis).removeScript c.id =
      .ok [.remove (c.path settings.nodeName)] := Synthesis.removeScript_of_valid hvalid
  have hremove : Script.Expressible [.remove (c.path settings.nodeName)] :=
    Script.expressible_nil.cons (Op.expressible_remove hsettings.nodeName hid)
  let s : Submission := .ofScript .stop (some c.id) [.remove (c.path settings.nodeName)]
    (.removal ⟨settings.nodeName, c.id⟩)
  have hread : Script.ofText s.text = [.remove (c.path settings.nodeName)] :=
    Script.ofText_text hremove
  have hlast : s.deferred? = none := rfl
  have hsent : (sent Plant.engine settings task s { model := m }).result = .ok true ∧
      (sent Plant.engine settings task s { model := m }).engine =
        { model := m.applyScript (Script.ofText s.text) } := by
    refine sent_willing task fun c' hc' => ?_
    rw [hlast] at hc'
    simp at hc'
  rw [hread] at hsent
  simp only [ofRequest, hscript]
  exact hsent

end Course

/-! ## Main statement -/

namespace Linker

/-- At rest, a stop of a component that was started removes it. -/
theorem model_of_stop {l : Linker Plant} {m : Model} {c : Component} (hrest : l.AtRest)
    (hengine : l.engine = { model := m }) (hsettings : l.settings.ScriptSafe)
    (hid : IsName c.id) (hvalid : c.validate = .ok ()) {moves : List Move}
    {result : Except Failure Bool}
    (hresult : ((l.ask [.stop c.id]).play Plant.engine moves).result? l.tasks.length =
      some result) :
    result = .ok true ∧ ((l.ask [.stop c.id]).play Plant.engine moves).engine.model =
      m.applyOp (.remove (c.path l.settings.nodeName)) := by
  obtain ⟨-, hcourse⟩ := course_of_play hrest Plant.engine (.stop c.id) moves hresult
  rw [hengine] at hcourse
  obtain ⟨htrue, hremoved⟩ := Course.stop_willing l.tasks.length m hsettings hid hvalid
  have hsame := (congrArg Course.engine hcourse).symm.trans hremoved
  exact ⟨(congrArg Course.result hcourse).symm.trans htrue, congrArg Plant.model hsame⟩

/-- A start of an id that is free leaves the linker at rest, with its script applied. -/
theorem model_of_start {settings : Settings} {model : Model} {c : Component}
    (hsafe : Synthesis.ScriptSafe ⟨model, settings⟩) (hc : c.ScriptSafe)
    (hfree : c.id ∉ model.ids settings.nodeName) {moves : List Move} {b : Bool}
    (hresult : ((opening settings ({ model } : Plant) [.start c]).play Plant.engine
      moves).result? 0 = some (.ok b)) :
    let started := (opening settings ({ model } : Plant) [.start c]).play Plant.engine moves
    started.AtRest ∧ c.validate = .ok () ∧ ∃ script,
      (⟨model, settings⟩ : Synthesis).startScript (c.resolve model).component = .ok script ∧
      started.engine = { model := model.applyScript script } := by
  obtain ⟨hrest, hcourse⟩ :=
    course_of_opening Plant.engine settings { model } (.start c) moves hresult
  have hstart := Course.ofStart Plant.engine settings 0 { model } c
  rw [hcourse] at hstart
  exact ⟨hrest, Course.start_willing hstart hsafe hc hfree rfl⟩

/-- A start of an id that is free and a stop of it, with all scripts accepted and no package
arriving: the stop ends with `.ok true`, and then the model is what it was before the start,
apart from new channels behind those that were there, which lead to destinations of the
bindings of the start. -/
theorem undone_of_stop {settings : Settings} {model : Model} {c : Component}
    (hsettings : settings.ScriptSafe) (hmodel : model.ScriptSafe settings.nodeName)
    (hc : c.ScriptSafe) (hfree : model.findComponent settings.nodeName c.id = none)
    (moves : List Move) {b : Bool}
    (hresult : ((opening settings ({ model } : Plant) [.start c]).play Plant.engine
      moves).result? 0 = some (.ok b)) :
    let s : Synthesis := ⟨model, settings⟩
    let started := (opening settings ({ model } : Plant) [.start c]).play Plant.engine moves
    ∃ bindings hubs, s.effectiveBindings (c.resolve model).component = .ok bindings ∧
      s.NewHubs bindings hubs ∧
      (∀ more result,
        ((started.ask [.stop c.id]).play Plant.engine more).result? 1 = some result →
        result = .ok true ∧ ((started.ask [.stop c.id]).play Plant.engine more).engine.model =
          { model with hubs := model.hubs ++ hubs }) ∧
      ∀ completion,
        ((started.ask [.stop c.id]).run Plant.engine completion).result? 1 = some (.ok true) ∧
          ((started.ask [.stop c.id]).run Plant.engine completion).engine.model =
            { model with hubs := model.hubs ++ hubs } := by
  intro s started
  have hids : c.id ∉ model.ids settings.nodeName := Model.findComponent_eq_none_iff.1 hfree
  obtain ⟨hrest, hvalid, script, hscript, hengine⟩ :=
    model_of_start ⟨hsettings, hmodel⟩ hc hids hresult
  obtain ⟨bindings, hbindings, hhubs⟩ := Synthesis.newHubs_startScript hscript
  -- The stop takes back what the start has put on the node.
  have hundone : (model.applyScript script).applyOp (.remove (c.path settings.nodeName)) =
      { model with hubs := model.hubs ++ script.addedHubs } := by
    obtain ⟨added, hextends⟩ := c.exists_extends_resolve model
    rw [← hextends.path]
    refine Synthesis.startScript_undone hscript ?_
    rw [Component.id_resolve]
    exact hids
  have hsame : started.settings = settings :=
    (frame_play Plant.engine (opening settings ({ model } : Plant) [.start c]) moves).1
  have hone : started.tasks.length = 1 := length_tasks_play Plant.engine _ moves
  have hstop : ∀ more result,
      ((started.ask [.stop c.id]).play Plant.engine more).result? 1 = some result →
      result = .ok true ∧ ((started.ask [.stop c.id]).play Plant.engine more).engine.model =
        { model with hubs := model.hubs ++ script.addedHubs } := by
    intro more result hstopped
    rw [← hone] at hstopped
    rw [← hundone, ← hsame]
    rw [← hsame] at hsettings
    exact model_of_stop hrest hengine hsettings hc.id hvalid hstopped
  refine ⟨bindings, script.addedHubs, hbindings, hhubs, hstop, fun completion => ?_⟩
  -- A run is a play that finishes the stop.
  have hlined : started.Lined :=
    (lined_opening settings ({ model } : Plant) [.start c]).play Plant.engine moves
  obtain ⟨result, hstopped, -⟩ := course_of_run hrest hlined Plant.engine (.stop c.id) completion
  obtain ⟨more, hmore, -⟩ := exists_play_run (hlined.ask [.stop c.id]) Plant.engine completion
  rw [hmore] at hstopped ⊢
  rw [hone] at hstopped
  obtain ⟨htrue, hrestored⟩ := hstop more result hstopped
  exact ⟨htrue ▸ hstopped, hrestored⟩

/-- A node with a lamp, and a switch type that leads to all lamps by default. -/
def lampModel : Model :=
  { Synthesis.bareLamp.model with packages := [Synthesis.switchPackage] }

/-- The start of a switch by itself. -/
def switchPlay : Linker Plant :=
  (opening (.forNode "home1") { model := lampModel } [.start Synthesis.lampSwitch]).play
    Plant.engine [.step 0, .step 0, .act 0, .answer 0, .step 0]

theorem undone_of_stop_lampSwitch :
    (Settings.forNode "home1").ScriptSafe ∧ lampModel.ScriptSafe "home1" ∧
      Synthesis.lampSwitch.ScriptSafe ∧ lampModel.findComponent "home1" "s1" = none ∧
      switchPlay.result? 0 = some (.ok true) ∧
      ∃ bindings hubs,
        (⟨lampModel, .forNode "home1"⟩ : Synthesis).effectiveBindings
          (Synthesis.lampSwitch.resolve lampModel).component = .ok bindings ∧
        (⟨lampModel, .forNode "home1"⟩ : Synthesis).NewHubs bindings hubs ∧
        (∀ more result,
          ((switchPlay.ask [.stop "s1"]).play Plant.engine more).result? 1 = some result →
          result = .ok true ∧
            ((switchPlay.ask [.stop "s1"]).play Plant.engine more).engine.model =
              { lampModel with hubs := lampModel.hubs ++ hubs }) ∧
        ∀ completion,
          ((switchPlay.ask [.stop "s1"]).run Plant.engine completion).result? 1 =
              some (.ok true) ∧
            ((switchPlay.ask [.stop "s1"]).run Plant.engine completion).engine.model =
              { lampModel with hubs := lampModel.hubs ++ hubs } := by
  have hsettings : (Settings.forNode "home1").ScriptSafe := by decide
  have hmodel : lampModel.ScriptSafe "home1" := by decide
  have hc : Synthesis.lampSwitch.ScriptSafe := by decide
  have hfree : lampModel.findComponent "home1" "s1" = none := by decide
  have hresult : switchPlay.result? 0 = some (.ok true) := by decide +kernel
  exact ⟨hsettings, hmodel, hc, hfree, hresult,
    undone_of_stop hsettings hmodel hc hfree _ hresult⟩

end Linker

end Wiring
