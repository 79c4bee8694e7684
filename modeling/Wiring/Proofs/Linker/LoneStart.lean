import Wiring.Proofs.Linker.Alone
import Wiring.Proofs.Linker.Safe
import Wiring.Proofs.Synthesis.Started

/-!
# A start alone

What a start comes to when nothing else is going on: it fails, it is skipped, or it submits
its script, `OfStart`.  A start that was skipped found its component on the node,
`running_of_start`.  A start over a plant that was told that its script was applied has put
its component there: the text of the script is read back as the creation of just that
component, and the bindings that may follow leave the nodes alone, `components_of_start`.
-/

namespace Wiring

/-! ## Plans -/

namespace Synthesis

variable {s : Synthesis} {c : Component}

theorem isRunning_iff {id : String} : s.isRunning id = true ↔ id ∈ s.model.ids s.node := by
  rw [isRunning, Option.isSome_iff_ne_none, ne_eq, Model.findComponent_eq_none_iff, not_not]

/-- A start of an id that is in use has nothing to do. -/
theorem planStart_of_mem (h : c.id ∈ s.model.ids s.node) : s.planStart c = .ok .running := by
  rw [planStart, if_pos (isRunning_iff.2 h)]

theorem mem_of_planStart (h : s.planStart c = .ok .running) : c.id ∈ s.model.ids s.node := by
  unfold planStart at h
  split at h
  · rename_i hrunning
    exact isRunning_iff.1 hrunning
  · dsimp only at h
    split at h <;> simp at h

end Synthesis

/-! ## Plants that handle a script -/

namespace Plant

/-- A plant that receives a script, decides on it and acts on it. -/
def handled (plant : Plant) (text : String) : Plant :=
  (plant.receive text).2.act text (plant.receive text).1

variable {plant : Plant} {text : String}

theorem nodes_handled_of_accept (h : (plant.receive text).1 = .accept) :
    (plant.handled text).model.nodes =
      (plant.model.applyScript (Script.ofText text)).nodes := by
  rw [handled, h, nodes_act_accept, model_receive]

theorem model_handled_of_ne_accept (h : (plant.receive text).1 ≠ .accept) :
    (plant.handled text).model = plant.model := by
  rw [handled, act_of_ne_accept _ _ h, model_receive]

/-- Whatever is decided on it, a script that only wires leaves the nodes as they are. -/
theorem nodes_handled_of_wiring (h : (Script.ofText text).IsWiring) :
    (plant.handled text).model.nodes = plant.model.nodes := by
  by_cases haccept : (plant.receive text).1 = .accept
  · rw [nodes_handled_of_accept haccept, Model.nodes_applyScript_of_wiring h]
  · rw [model_handled_of_ne_accept haccept]

end Plant

/-! ## A start -/

namespace Course

section anyEngine

variable {σ : Type} {e : Engine σ} {settings : Settings} {task : Nat} {engine : σ}

/-- Only what submits nothing comes to `.ok false`. -/
theorem result_applied_ne (s : Submission) :
    (applied e settings task s engine).result ≠ .ok false := by
  unfold applied
  split
  · exact s.outcome_ne_ok_false .accept
  · split
    · exact s.outcome_ne_ok_false .accept
    · exact Submission.outcome_ne_ok_false _ _

theorem result_sent_ne (s : Submission) :
    (sent e settings task s engine).result ≠ .ok false := by
  rw [sent, handedOver]
  cases (e.receive engine s.text).1 with
  | accept => exact result_applied_ne s
  | reject => exact s.outcome_ne_ok_false .reject
  | drop => exact s.outcome_ne_ok_false .drop

/-- The script that a start submits. -/
def startSubmission (settings : Settings) (c : Component) (script : Script)
    (typeResolved : Bool) : Submission :=
  .ofScript .start (some c.id) script (.start (c.path settings.nodeName))
    (if typeResolved then none else some c)

/-- Bindings are to follow a start whose type was not found. -/
theorem deferred?_startSubmission {c c' : Component} {script : Script} {typeResolved : Bool}
    (h : (startSubmission settings c script typeResolved).deferred? = some c') :
    c' = c ∧ typeResolved = false := by
  change (if typeResolved then none else some c) = some c' at h
  cases typeResolved with
  | true => simp at h
  | false => exact ⟨by simpa using h.symm, rfl⟩

/-- What a start comes to: it fails, it is skipped, or it submits its script. -/
inductive OfStart (e : Engine σ) (settings : Settings) (task : Nat) (engine : σ)
    (c : Component) : Course σ → Prop
  | failed (failure : Failure) : OfStart e settings task engine c (ended engine (.error failure))
  | running
      (hplan : (⟨e.model engine, settings⟩ : Synthesis).planStart c = .ok .running) :
    OfStart e settings task engine c (skipped task (.start c) "already running" engine)
  | script {script : Script} {typeResolved : Bool} (hvalid : c.validate = .ok ())
      (hplan : (⟨e.model engine, settings⟩ : Synthesis).planStart c =
        .ok (.script script typeResolved)) :
    OfStart e settings task engine c
      (sent e settings task (startSubmission settings c script typeResolved) engine)

theorem ofStart (e : Engine σ) (settings : Settings) (task : Nat) (engine : σ)
    (c : Component) :
    OfStart e settings task engine c (ofRequest e settings task engine (.start c)) := by
  simp only [ofRequest]
  cases hvalid : c.validate with
  | error failure => exact .failed failure
  | ok valid =>
    simp only [inTurn]
    split
    · rename_i failure hplan
      exact .failed failure
    · rename_i hplan
      exact .running hplan
    · rename_i script typeResolved hplan
      exact .script hvalid hplan

/-- A valid start of a component that is there is skipped. -/
theorem ofRequest_of_running {c : Component} (hvalid : c.validate = .ok ())
    (hplan : (⟨e.model engine, settings⟩ : Synthesis).planStart c = .ok .running) :
    ofRequest e settings task engine (.start c) =
      skipped task (.start c) "already running" engine := by
  simp only [ofRequest, hvalid, inTurn, hplan]

/-- A start that submits nothing found its component, and leaves the engine alone. -/
theorem running_of_start {c : Component} {course : Course σ}
    (hcourse : OfStart e settings task engine c course) (h : course.result = .ok false) :
    (⟨e.model engine, settings⟩ : Synthesis).planStart c = .ok .running ∧
      course.engine = engine := by
  cases hcourse with
  | failed failure => simp [ended] at h
  | running hplan => exact ⟨hplan, rfl⟩
  | script hvalid hplan => exact absurd h (result_sent_ne _)

/-- A start that is told that its script was applied had a script, and the engine has acted
on it. -/
theorem applied_of_start {c : Component} {course : Course σ}
    (hcourse : OfStart e settings task engine c course)
    (h : ⟨task, .start, some c.id, .applied⟩ ∈ course.events) :
    ∃ script typeResolved,
      (⟨e.model engine, settings⟩ : Synthesis).planStart c = .ok (.script script typeResolved) ∧
      course.engine = (applied e settings task (startSubmission settings c script typeResolved)
        (e.act (e.receive engine script.text).2 script.text .accept)).engine := by
  cases hcourse with
  | failed failure => simp [ended] at h
  | running hplan => simp [skipped, ended, after] at h
  | @script script typeResolved hvalid hplan =>
    refine ⟨script, typeResolved, hplan, ?_⟩
    have htext : (startSubmission settings c script typeResolved).text = script.text := rfl
    rw [sent, handedOver, htext] at h ⊢
    cases hverdict : (e.receive engine script.text).1 with
    | accept => rfl
    | _ =>
      rw [hverdict] at h
      simp [after, answered, concluded, ended, Submission.announced, Submission.reported,
        Verdict.status] at h

end anyEngine

variable {settings : Settings} {plant : Plant}

/-- The bindings that follow a script leave the nodes as they are. -/
theorem nodes_applied (task : Nat) {s : Submission}
    (hsafe : Synthesis.ScriptSafe ⟨plant.model, settings⟩)
    (hid : ∀ c, s.deferred? = some c → IsName c.id) :
    (applied Plant.engine settings task s plant).engine.model.nodes = plant.model.nodes := by
  unfold applied
  split
  · rfl
  · rename_i c hdeferred
    split
    · rfl
    · rename_i script hplan
      have hscript := Synthesis.planDeferred_eq_script hplan
      have hname : IsName (c.resolve plant.model).component.id := by
        rw [Component.id_resolve]
        exact hid c hdeferred
      have hread := Script.ofText_text (Synthesis.expressible_bindingScript hsafe hname hscript)
      have hwiring : (Script.ofText script.text).IsWiring := by
        rw [hread]
        exact Synthesis.isWiring_bindingScript hscript
      exact Plant.nodes_handled_of_wiring hwiring

/-- The script of a start, once it is applied, is what it was made to be, and leaves the model
safe. -/
theorem scriptSafe_started {c : Component} {script : Script}
    (hsafe : Synthesis.ScriptSafe ⟨plant.model, settings⟩)
    (harriving : Package.ScriptSafe plant.arriving) (hc : c.ScriptSafe)
    (hscript : (⟨plant.model, settings⟩ : Synthesis).startScript
      (c.resolve plant.model).component = .ok script) :
    let started := (plant.receive script.text).2.act script.text .accept
    Synthesis.ScriptSafe ⟨started.model, settings⟩ ∧
      started.model.nodes = (plant.model.applyScript script).nodes := by
  have hresolved := hc.resolve (m := plant.model) hsafe.model.packages
  have hread := Script.ofText_text (Synthesis.expressible_startScript hsafe hresolved hscript)
  refine ⟨⟨hsafe.settings, (Plant.scriptSafe_act ?_ ?_ ?_).1⟩, ?_⟩
  · rw [Plant.model_receive]
    exact hsafe.model
  · rw [Plant.arriving_receive]
    exact harriving
  · rw [hread, Synthesis.addedComponents_startScript hscript]
    intro path hpath
    rw [List.mem_singleton.1 hpath, Component.path, Component.id_resolve]
    exact hc.id
  · rw [Plant.nodes_act_accept, Plant.model_receive, hread]

/-- There the component of the start stands behind those that were on the node before. -/
theorem components_started {c : Component} {script : Script} {typeResolved : Bool}
    (hsafe : Synthesis.ScriptSafe ⟨plant.model, settings⟩)
    (harriving : Package.ScriptSafe plant.arriving) (hc : c.ScriptSafe)
    (hnode : plant.model.HasNode settings.nodeName)
    (hplan : (⟨plant.model, settings⟩ : Synthesis).planStart c =
      .ok (.script script typeResolved)) :
    ((plant.receive script.text).2.act script.text .accept).model.components settings.nodeName =
      plant.model.components settings.nodeName ++ [⟨c.id, c.typeName⟩] := by
  have hscript := (Synthesis.planStart_eq_script hplan).2
  obtain ⟨-, hnodes⟩ := scriptSafe_started hsafe harriving hc hscript
  obtain ⟨added, hextends⟩ := c.exists_extends_resolve plant.model
  have hcomponents := Synthesis.components_startScript hscript (m := plant.model) hnode
  rw [Component.id_resolve, hextends.typeName] at hcomponents
  exact (Model.components_congr hnodes settings.nodeName).trans hcomponents

/-- A start that is told that its script was applied has put its component on the node, behind
those that were there. -/
theorem components_of_start {task : Nat} {c : Component}
    (hsafe : Synthesis.ScriptSafe ⟨plant.model, settings⟩)
    (harriving : Package.ScriptSafe plant.arriving) (hc : c.ScriptSafe)
    (hnode : plant.model.HasNode settings.nodeName)
    {course : Course Plant} (hcourse : OfStart Plant.engine settings task plant c course)
    (h : ⟨task, .start, some c.id, .applied⟩ ∈ course.events) :
    course.engine.model.components settings.nodeName =
      plant.model.components settings.nodeName ++ [⟨c.id, c.typeName⟩] := by
  obtain ⟨script, typeResolved, hplan, hengine⟩ := applied_of_start hcourse h
  obtain ⟨hstarted, -⟩ :=
    scriptSafe_started hsafe harriving hc (Synthesis.planStart_eq_script hplan).2
  have hid : ∀ c', (startSubmission settings c script typeResolved).deferred? = some c' →
      IsName c'.id := by
    intro c' hc'
    rw [(deferred?_startSubmission hc').1]
    exact hc.id
  -- The bindings that may follow leave the nodes as the script of the start has made them.
  have hbound := Model.components_congr (nodes_applied task hstarted hid) settings.nodeName
  rw [hengine]
  exact hbound.trans (components_started hsafe harriving hc hnode hplan)

end Course

end Wiring
