import Wiring.Proofs.Linker.Undone
import Wiring.Proofs.Synthesis.Removal

/-!
# A stop by type

All instances of some types are removed from the node, over a plant that accepts every
script and where no package arrives.  What is left of the model is everything else; what is
handed over is one removal for each instance, or nothing at all when there is none; and a
stop by the same types finds nothing the second time, `finishes_stopByType`.
-/

namespace Wiring

/-! ## The course of a stop by type -/

namespace Course

variable {settings : Settings} {m : Model} {types : List String}

/-- A script that no bindings are to follow is applied, and that is all. -/
theorem sent_last_willing (task : Nat) {s : Submission} (hlast : s.deferred? = none) :
    sent Plant.engine settings task s { model := m } =
      (concluded task s .accept { model := m.applyScript (Script.ofText s.text) }).after
        [s.announced task] [(task, s.text)] := by
  rw [sent, answered_of_last Plant.engine settings task hlast, ← Plant.act_willing]
  rfl

/-- Without an instance of the types there is nothing to submit. -/
theorem stopByType_of_none (task : Nat) (hnone : m.instancesOf types settings.nodeName = []) :
    ofRequest Plant.engine settings task { model := m } (.stopByType types) =
      skipped task (.stopByType types) "nothing running" { model := m } := by
  have hscript : (⟨m, settings⟩ : Synthesis).stopByTypeScript types = [] :=
    Synthesis.stopByTypeScript_eq_nil_iff.2 hnone
  rw [ofRequest]
  exact if_pos hscript

/-- The instances of the types are removed by one script. -/
theorem stopByType_of_some (task : Nat) (hsettings : settings.ScriptSafe)
    (hnames : ∀ c ∈ m.components settings.nodeName, IsName c.name)
    (hids : (m.ids settings.nodeName).Nodup)
    (hsome : m.instancesOf types settings.nodeName ≠ []) :
    let script := (⟨m, settings⟩ : Synthesis).stopByTypeScript types
    let course := ofRequest Plant.engine settings task { model := m } (.stopByType types)
    course.scripts = [(task, script.text)] ∧ course.result = .ok true ∧
      course.engine = { model := m.withoutTypes types settings.nodeName } := by
  intro script course
  have hscript : script ≠ [] := fun h => hsome (Synthesis.stopByTypeScript_eq_nil_iff.1 h)
  let s : Submission := .ofScript .stopByType none script (.removalOfTypes script.length types)
  have hcourse : course = sent Plant.engine settings task s { model := m } := if_neg hscript
  have hexpressible : script.Expressible :=
    @Synthesis.expressible_stopByTypeScript_of_ids ⟨m, settings⟩ hsettings.nodeName hnames types
  have hread : Script.ofText s.text = script := Script.ofText_text hexpressible
  have hlast : s.deferred? = none := rfl
  have hremoved : m.applyScript script = m.withoutTypes types settings.nodeName :=
    @Synthesis.applyScript_stopByTypeScript ⟨m, settings⟩ hids types
  rw [hcourse, sent_last_willing task hlast, hread, hremoved]
  exact ⟨rfl, rfl, rfl⟩

end Course

/-! ## Main statement -/

namespace Linker

/-- What a stop by type comes to. -/
structure StoppedByType (settings : Settings) (model : Model) (types : List String)
    (result : Except Failure Bool) (after : Linker Plant) : Prop where
  /-- Nothing of the model is touched but the instances on the node. -/
  engine : after.engine = { model := model.withoutTypes types settings.nodeName }
  /-- The node has what it had, in that order, but for the instances whose simple type name
  is that of one of the types. -/
  components : after.engine.model.components settings.nodeName =
    (model.components settings.nodeName).filter fun c => ∀ typeName ∈ types,
      (TypeName.parse c.typeName).simple ≠ (TypeName.parse typeName).simple
  /-- If there were any, one script was handed over, which removes each of them once. -/
  submitted : model.instancesOf types settings.nodeName ≠ [] →
    result = .ok true ∧ ∃ text script, after.scripts = [(0, text)] ∧
      Script.parse text = .ok script ∧ script.Nodup ∧
      script.Perm ((model.instancesOf types settings.nodeName).map fun c =>
        .remove ⟨settings.nodeName, c.name⟩)
  /-- If there were none, nothing was handed over. -/
  skipped : model.instancesOf types settings.nodeName = [] →
    result = .ok false ∧ after.scripts = [] ∧ after.engine = { model }
  /-- A second stop by the types hands nothing over. -/
  again : Finishes Plant.engine (after.ask [.stopByType types]) 1 fun result' final =>
    result' = .ok false ∧ final.scripts = after.scripts ∧ final.engine = after.engine

/-- A stop by types of which the node has no instance is skipped. -/
theorem finishes_skipped {l : Linker Plant} {m : Model} {types : List String}
    (hrest : l.AtRest) (hlined : l.Lined) (hengine : l.engine = { model := m })
    (hnone : m.instancesOf types l.settings.nodeName = []) :
    Finishes Plant.engine (l.ask [.stopByType types]) l.tasks.length fun result after =>
      result = .ok false ∧ after.scripts = l.scripts ∧ after.engine = l.engine := by
  refine (finishes_ask hrest hlined Plant.engine (.stopByType types)).imp ?_
  intro result after hserved
  have hcourse := hserved.course
  rw [hengine, Course.stopByType_of_none l.tasks.length hnone, ← hengine] at hcourse
  have hscripts : l.scripts ++ ([] ++ []) = after.scripts := congrArg Course.scripts hcourse
  rw [List.append_nil, List.append_nil] at hscripts
  exact ⟨(congrArg Course.result hcourse).symm, hscripts.symm,
    (congrArg Course.engine hcourse).symm⟩

/-- A stop by type removes from the node all instances of the types and nothing else, and a
second one finds nothing to remove. -/
theorem finishes_stopByType {settings : Settings} {model : Model}
    (hsettings : settings.ScriptSafe)
    (hnames : ∀ c ∈ model.components settings.nodeName, IsName c.name)
    (hids : (model.ids settings.nodeName).Nodup) (types : List String) :
    Finishes Plant.engine (opening settings { model } [.stopByType types]) 0
      (StoppedByType settings model types) := by
  let l : Linker Plant := { settings, engine := { model } }
  have hrest : l.AtRest := ⟨fun i t ht => by simp [l] at ht, rfl⟩
  have hlined : l.Lined := lined_opening settings ({ model } : Plant) []
  refine (finishes_ask hrest hlined Plant.engine (.stopByType types)).imp ?_
  intro result after hserved
  have hcourse : Course.ofRequest Plant.engine settings 0 { model } (.stopByType types) =
      ⟨after.events, after.scripts, result, after.engine⟩ := hserved.course
  have hskipped : model.instancesOf types settings.nodeName = [] →
      result = .ok false ∧ after.scripts = [] ∧ after.engine = { model } := by
    intro hnone
    rw [Course.stopByType_of_none 0 hnone] at hcourse
    exact ⟨(congrArg Course.result hcourse).symm, (congrArg Course.scripts hcourse).symm,
      (congrArg Course.engine hcourse).symm⟩
  have hsubmitted := fun hsome : model.instancesOf types settings.nodeName ≠ [] =>
    Course.stopByType_of_some 0 hsettings hnames hids hsome
  rw [hcourse] at hsubmitted
  have hengine : after.engine = { model := model.withoutTypes types settings.nodeName } := by
    by_cases hnone : model.instancesOf types settings.nodeName = []
    · rw [Model.withoutTypes_eq_self hnone]
      exact (hskipped hnone).2.2
    · exact (hsubmitted hnone).2.2
  refine ⟨hengine, ?_, fun hsome => ?_, hskipped, ?_⟩
  · rw [hengine, Model.components_withoutTypes]
    refine List.filter_congr fun c _ => ?_
    rw [Bool.eq_iff_iff, Bool.not_eq_true', ← Bool.not_eq_true, Instance.isOfSome_iff]
    simp
  · obtain ⟨hscripts, htrue, -⟩ := hsubmitted hsome
    have hexpressible := @Synthesis.expressible_stopByTypeScript_of_ids ⟨model, settings⟩
      hsettings.nodeName hnames types
    exact ⟨htrue, _, _, hscripts, Script.parse_text_of_expressible hexpressible,
      Synthesis.nodup_stopByTypeScript _ types, Synthesis.perm_stopByTypeScript hids types⟩
  · have hone : after.tasks.length = 1 := hserved.tasks
    have hgone : (model.withoutTypes types settings.nodeName).instancesOf types
        after.settings.nodeName = [] := by
      rw [hserved.settings]
      exact model.instancesOf_withoutTypes types settings.nodeName
    rw [← hone]
    exact finishes_skipped hserved.rest hserved.lined hengine hgone

/-- A node with two lamps, of types in different packages, and a switch. -/
def twoLamps : Model where
  nodes := [⟨"home1", [⟨"light_a", "org.activehome.Light"⟩, ⟨"s1", "org.activehome.Switch"⟩,
    ⟨"light_b", "org.other.Light/1.2.0"⟩]⟩]

/-- The lamps are asked for twice, and together with a type that nothing is of. -/
theorem finishes_stopByType_twoLamps :
    (Settings.forNode "home1").ScriptSafe ∧
      (∀ c ∈ twoLamps.components "home1", IsName c.name) ∧ (twoLamps.ids "home1").Nodup ∧
      twoLamps.instancesOf ["Light", "org.activehome.Light/3", "Door"] "home1" ≠ [] ∧
      Finishes Plant.engine
        (opening (.forNode "home1") { model := twoLamps }
          [.stopByType ["Light", "org.activehome.Light/3", "Door"]]) 0
        (StoppedByType (.forNode "home1") twoLamps
          ["Light", "org.activehome.Light/3", "Door"]) := by
  have hsettings : (Settings.forNode "home1").ScriptSafe := by decide
  have hnames : ∀ c ∈ twoLamps.components "home1", IsName c.name := by decide
  have hids : (twoLamps.ids "home1").Nodup := by decide
  refine ⟨hsettings, hnames, hids, by decide, ?_⟩
  exact finishes_stopByType hsettings hnames hids ["Light", "org.activehome.Light/3", "Door"]

end Linker

end Wiring
