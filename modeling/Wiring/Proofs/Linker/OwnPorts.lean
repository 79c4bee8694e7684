import Wiring.Proofs.Linker.LoneStart
import Wiring.Proofs.Synthesis.OwnPorts

/-!
# Starts that wire a component to itself

A start to a linker at rest hands over nothing, its script, or its script and the bindings
that its type declares, `WiresPorts`.  The script leads the component to other components
only, unless explicit destinations say otherwise.  The bindings that follow it are made from
the model that the engine has come to, where the component may already run, and lead it to
itself exactly when it meets itself there: `finishes_start_wiresPorts`.
-/

namespace Wiring

variable {σ : Type}

/-- What scripts are made with after an engine has accepted a text. -/
def Engine.whenAccepted (e : Engine σ) (settings : Settings) (engine : σ) (text : String) :
    Synthesis :=
  ⟨e.model (e.act (e.receive engine text).2 text .accept), settings⟩

namespace Course

/-- The scripts of a start lead the component to itself in deferred bindings only, and there
exactly when the component meets itself. -/
inductive WiresPorts (e : Engine σ) (settings : Settings) (engine : σ) (c : Component) :
    List Script → Prop
  | nothing : WiresPorts e settings engine c []
  | direct {first : Script} {pairs : List (String × Destination)}
      (hfirst : (⟨e.model engine, settings⟩ : Synthesis).StartsWith
        (c.resolve (e.model engine)).component pairs first)
      (hothers : ∀ pair ∈ pairs, pair.2.component ≠ c.path settings.nodeName) :
    WiresPorts e settings engine c [first]
  | deferred {first second : Script} {pairs later : List (String × Destination)}
      (hfirst : (⟨e.model engine, settings⟩ : Synthesis).StartsWith
        (c.resolve (e.model engine)).component pairs first)
      (hothers : ∀ pair ∈ pairs, pair.2.component ≠ c.path settings.nodeName)
      (hsecond : (e.whenAccepted settings engine first.text).BindsLater c later second)
      (hitself : (∃ pair ∈ later, pair.2.component = c.path settings.nodeName) ↔
        (e.whenAccepted settings engine first.text).MeetsItself c) :
    WiresPorts e settings engine c [first, second]

variable {e : Engine σ} {settings : Settings} {task : Nat} {engine : σ} {c : Component}

/-- After the script of a start is applied, nothing follows, or the bindings of the type. -/
theorem scripts_applied (script : Script) (typeResolved : Bool) (engine : σ) :
    (applied e settings task (startSubmission settings c script typeResolved) engine).scripts =
        [] ∨
      ∃ later, (⟨e.model engine, settings⟩ : Synthesis).planDeferred c = .script later ∧
        (applied e settings task (startSubmission settings c script typeResolved)
          engine).scripts = [(task, later.text)] := by
  unfold applied
  split
  · exact Or.inl rfl
  · rename_i c' hdeferred
    obtain ⟨rfl, -⟩ := deferred?_startSubmission hdeferred
    split
    · exact Or.inl rfl
    · rename_i later hplan
      exact Or.inr ⟨later, hplan, rfl⟩

theorem scripts_of_start {course : Course σ}
    (hcourse : OfStart e settings task engine c course)
    (hexplicit : ¬ c.portBindings.LeadTo (c.path settings.nodeName)) :
    ∃ scripts, course.scripts = scripts.map (fun script => (task, script.text)) ∧
      WiresPorts e settings engine c scripts := by
  cases hcourse with
  | failed failure => exact ⟨[], rfl, .nothing⟩
  | running hplan => exact ⟨[], rfl, .nothing⟩
  | @script first typeResolved hvalid hplan =>
    obtain ⟨pairs, hfirst, hothers⟩ := Synthesis.exists_of_planStart hplan hexplicit
    have htext : (startSubmission settings c first typeResolved).text = first.text := rfl
    rw [sent, handedOver, htext]
    cases (e.receive engine first.text).1 with
    | reject => exact ⟨[first], rfl, .direct hfirst hothers⟩
    | drop => exact ⟨[first], rfl, .direct hfirst hothers⟩
    | accept =>
      have happlied := @scripts_applied σ e settings task c first typeResolved
        (e.act (e.receive engine first.text).2 first.text .accept)
      rcases happlied with hnone | ⟨second, hdeferred, hscripts⟩
      · refine ⟨[first], ?_, .direct hfirst hothers⟩
        exact congrArg ((task, first.text) :: ·) hnone
      · obtain ⟨later, hsecond, hitself⟩ := Synthesis.exists_of_planDeferred hdeferred
        refine ⟨[first, second], ?_, .deferred hfirst hothers hsecond hitself⟩
        exact congrArg ((task, first.text) :: ·) hscripts

/-- Over a plant the component runs under its type by then, so it meets itself when its type
declares an entry that asks for a type of the same simple name. -/
theorem meetsItself_whenAccepted_iff {plant : Plant} {script : Script} {typeResolved : Bool}
    (hsafe : Synthesis.ScriptSafe ⟨plant.model, settings⟩)
    (harriving : Package.ScriptSafe plant.arriving) (hc : c.ScriptSafe)
    (hnode : plant.model.HasNode settings.nodeName)
    (hplan : (⟨plant.model, settings⟩ : Synthesis).planStart c =
      .ok (.script script typeResolved)) :
    (Plant.engine.whenAccepted settings plant script.text).MeetsItself c ↔
      ¬ (Plant.engine.whenAccepted settings plant script.text).Foreign c := by
  have hfree := (Synthesis.planStart_eq_script hplan).1
  have hcomponents : (Plant.engine.whenAccepted settings plant script.text).model.components
      settings.nodeName = plant.model.components settings.nodeName ++ [⟨c.id, c.typeName⟩] :=
    components_started hsafe harriving hc hnode hplan
  refine Synthesis.meetsItself_iff_not_foreign ?_ fun i hi hid => ?_
  · show c.id ∈ Model.ids _ settings.nodeName
    rw [Model.ids, hcomponents]
    simp
  · -- The node had no component of this id before.
    change i ∈ Model.components _ settings.nodeName at hi
    rw [hcomponents, List.mem_append, List.mem_singleton] at hi
    rcases hi with hold | rfl
    · exact absurd (List.mem_map.2 ⟨i, hold, hid⟩) (Model.findComponent_eq_none_iff.1 hfree)
    · rfl

end Course

namespace Linker

open Course

/-- The script of a start does not lead the component to itself, where its explicit
destinations do not.  The bindings that follow the start of an unknown type do so exactly when
the component meets itself in the model that the script has led to. -/
theorem finishes_start_wiresPorts {l : Linker σ} (hrest : l.AtRest) (hlined : l.Lined)
    (e : Engine σ) {c : Component}
    (hexplicit : ¬ c.portBindings.LeadTo (c.path l.settings.nodeName)) :
    Finishes e (l.ask [.start c]) l.tasks.length fun _ after => ∃ scripts,
      after.scripts = l.scripts ++ scripts.map (fun script => (l.tasks.length, script.text)) ∧
        WiresPorts e l.settings l.engine c scripts := by
  refine (finishes_ask hrest hlined e (.start c)).imp fun result after hserved => ?_
  have hstart := ofStart e l.settings l.tasks.length l.engine c
  obtain ⟨scripts, hscripts, hwires⟩ := scripts_of_start hstart hexplicit
  refine ⟨scripts, ?_, hwires⟩
  have hcourse := congrArg Course.scripts hserved.course
  rw [Course.after, hscripts] at hcourse
  exact hcourse.symm

/-- A lamp of a type whose lamps are to be led to all lamps. -/
def newLamp : Component where
  typeName := "org.activehome.Light"
  id := "s1"

/-- The package with the type of the lamp. -/
def lampPackage : Package where
  name := "org"
  packages := [{
    name := "activehome"
    types := [{ name := "Light", dictionary := [⟨"binding_out", some "o>Light.in"⟩] }] }]

/-- A plant with an empty node, where the type of the lamp arrives with the first script. -/
def lamplessPlant : Plant where
  model := { nodes := [⟨"home1", []⟩] }
  arriving := [lampPackage]

theorem finishes_start_wiresPorts_newLamp :
    ¬ newLamp.portBindings.LeadTo ⟨"home1", "s1"⟩ ∧
      Finishes Plant.engine (opening (.forNode "home1") lamplessPlant [.start newLamp]) 0
        fun _ after => ∃ scripts,
          after.scripts = [] ++ scripts.map (fun script => (0, script.text)) ∧
            WiresPorts Plant.engine (.forNode "home1") lamplessPlant newLamp scripts := by
  let l : Linker Plant := { settings := .forNode "home1", engine := lamplessPlant }
  have hrest : l.AtRest := ⟨fun i t ht => by simp [l] at ht, rfl⟩
  have hlined : l.Lined := lined_opening (.forNode "home1") lamplessPlant []
  have hexplicit : ¬ newLamp.portBindings.LeadTo (newLamp.path l.settings.nodeName) := by
    decide +kernel
  exact ⟨hexplicit, finishes_start_wiresPorts hrest hlined Plant.engine hexplicit⟩

/-- The lamp is started, and then bound. -/
def newLampPlay : Linker Plant :=
  (opening (.forNode "home1") lamplessPlant [.start newLamp]).play Plant.engine
    [.step 0, .step 0, .act 0, .answer 0, .step 0, .act 0, .answer 0, .step 0]

/-- The bindings of the lamp lead it to itself.  A start that finds the type makes no
bindings. -/
theorem newLamp_wired_to_itself :
    ¬ newLamp.portBindings.LeadTo ⟨"home1", "s1"⟩ ∧
      newLampPlay.result? 0 = some (.ok true) ∧
      newLampPlay.scripts.map (fun handed => Script.ofText handed.2) =
        [[.addComponent ⟨"home1", "s1"⟩ "org.activehome.Light"],
          [.addChannel ⟨"chan_in_home1_s1"⟩ "AsyncBroadcast",
            .bind ⟨⟨"home1", "s1"⟩, "in"⟩ ⟨"chan_in_home1_s1"⟩,
            .bind ⟨⟨"home1", "s1"⟩, "o"⟩ ⟨"chan_in_home1_s1"⟩]] ∧
      (⟨{ lamplessPlant.model with packages := [lampPackage] }, .forNode "home1"⟩ :
          Synthesis).planStart newLamp =
        .ok (.script [.addComponent ⟨"home1", "s1"⟩ "org.activehome.Light"] true) :=
  ⟨by decide +kernel, by decide +kernel, by decide +kernel, by decide +kernel⟩

end Linker

end Wiring
