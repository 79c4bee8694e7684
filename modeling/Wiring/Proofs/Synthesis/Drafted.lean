import Wiring.Proofs.Component.Drafted
import Wiring.Proofs.Settings

/-!
# Starts of drafted requests

Finishing a draft checks its names, its specifications and its destinations.  What a start
adds to these are the tokens that are printed for components of the node, and a printed token
is read back when no name in it is empty or has a dot.  So on a node with such names a request
alone decides whether it has a start script, `exists_startScript_iff_of_isPlainNode`, and one
that comes from a draft is refused only for an attribute given by the caller,
`exists_startScript_iff_of_finish`.

The main statement is `exists_startScript_of_drafted`.
-/

namespace Wiring

namespace Synthesis

/-- Names on the node that can stand between the dots of a token. -/
structure IsPlainNode (s : Synthesis) : Prop where
  node : s.node ≠ "" ∧ '.' ∉ s.node.toList
  ids : ∀ component ∈ s.model.components s.node,
    component.name ≠ "" ∧ '.' ∉ component.name.toList

variable {s : Synthesis} {c : Component}

/-! ## Requests on a node with plain names -/

/-- The tokens that are printed for a specification can be read. -/
theorem IsPlainNode.isToken_of_mem_destinations (hs : s.IsPlainNode) {entry : BindingEntry}
    (hport : IsName entry.destPort) {token : String}
    (htoken : token ∈ entry.destinations s.model s.node) : Destination.IsToken token := by
  obtain ⟨path, hpath, rfl⟩ := List.mem_map.1 htoken
  obtain ⟨hnode, component, hcomponent, hid⟩ := Model.exists_of_mem_runningOn hpath
  have hplain : Destination.IsPlain ⟨path, entry.destPort⟩ :=
    ⟨hnode ▸ hs.node, hid ▸ hs.ids component hcomponent, hport.ne_empty, hport.isField.noDot⟩
  exact ⟨_, hplain, rfl⟩

theorem IsPlainNode.isToken_effectiveBindings (hs : s.IsPlainNode)
    (hgiven : ∀ entry ∈ c.portBindings.entries, ∀ token ∈ entry.2, Destination.IsToken token)
    {bindings : PortBindings} (h : s.effectiveBindings c = .ok bindings) :
    ∀ entry ∈ bindings.entries, ∀ token ∈ entry.2, Destination.IsToken token := by
  have hmap : c.portBindings.Holds (fun _ => True) Destination.IsToken :=
    fun entry hentry => ⟨trivial, hgiven entry hentry⟩
  have hfilled : bindings.Holds (fun _ => True) Destination.IsToken := by
    refine PortBindings.Holds.fillAll (fun spec entries hparse entry hentry => ?_) hmap h
    obtain ⟨-, hport⟩ := BindingEntry.isName_of_parsePieces hparse entry hentry
    exact ⟨trivial, fun token => hs.isToken_of_mem_destinations hport⟩
  exact fun entry hentry => (hfilled entry hentry).2

/-- On a node with plain names the request alone decides whether it can be started. -/
theorem exists_startScript_iff_of_isPlainNode (hs : s.IsPlainNode)
    (hgiven : ∀ entry ∈ c.portBindings.entries, ∀ token ∈ entry.2, Destination.IsToken token) :
    (∃ script, s.startScript c = .ok script) ↔
      (¬ Text.isBlankText c.id = true ∧ ¬ Text.isBlankText c.typeName = true) ∧
        ∀ entry ∈ c.attributes.entries, carries s.settings.bindingPrefix entry.1 = true →
          PortBindings.Readable entry.2 := by
  rw [exists_startScript_iff]
  simp only [Refuses, not_or, not_exists, not_and, not_not]
  constructor
  · rintro ⟨hid, htype, hspecs, -⟩
    exact ⟨⟨hid, htype⟩, hspecs⟩
  · rintro ⟨⟨hid, htype⟩, hspecs⟩
    exact ⟨hid, htype, hspecs, fun bindings => hs.isToken_effectiveBindings hgiven⟩

/-! ## Drafts -/

/-- A request that comes from a draft is refused only for attributes of the draft that are taken
for specifications. -/
theorem exists_startScript_iff_of_finish (hs : s.IsPlainNode) {d : Draft}
    (h : d.finish = .ok c) :
    (∃ script, s.startScript c = .ok script) ↔
      ∀ entry ∈ d.attributes.entries, carries s.settings.bindingPrefix entry.1 = true →
        PortBindings.Readable entry.2 := by
  have hkept := Draft.perm_attributes_of_finish h
  obtain ⟨hnames, htokens, stored, -, rfl⟩ := Draft.finish_eq_ok_iff.1 h
  rw [exists_startScript_iff_of_isPlainNode hs htokens]
  constructor
  · rintro ⟨-, hspecs⟩ entry hentry
    exact hspecs entry (hkept.mem_iff.2 (List.mem_append_left _ hentry))
  · intro hspecs
    refine ⟨hnames, fun entry hentry hcarries => ?_⟩
    rcases Draft.mem_attributes_of_finish h hentry with hgiven | hreadable
    · exact hspecs entry hgiven hcarries
    · exact hreadable

/-! ## Main statement -/

/-- A request that is put together without attributes of the prefix, and finished, has a start
script with all settings of that prefix that pass their check, on every node with components
whose names are not empty and have no dots. -/
theorem exists_startScript_of_drafted {typeName id : String} {steps : List Draft.Step}
    (hfinish : (Draft.drafted typeName id steps).finish = .ok c)
    (hplain : ∀ key value, .setValue key value ∈ steps →
      carries (Draft.lastPrefix steps) key = false)
    (hsettings : s.settings.validate = .ok ())
    (hmark : s.settings.bindingPrefix = Draft.lastPrefix steps)
    (hids : ∀ component ∈ s.model.components s.node,
      component.name ≠ "" ∧ '.' ∉ component.name.toList) :
    ∃ script, s.startScript c = .ok script := by
  obtain ⟨hnode, -, -⟩ := Settings.validate_eq_ok_iff.1 hsettings
  have hs : s.IsPlainNode := ⟨⟨hnode.ne_empty, hnode.noDot⟩, hids⟩
  refine (exists_startScript_iff_of_finish hs hfinish).2 fun entry hentry hcarries => ?_
  have hstep := (Draft.records_drafted typeName id steps).setValue_mem hentry
  rw [hmark, hplain _ _ hstep] at hcarries
  contradiction

/-- A node with two lights, for requests whose specifications stand under `wire`. -/
def twoLights : Synthesis where
  model :=
    { nodes := [⟨"home1", [⟨"light_a", "org.activehome.Light"⟩,
        ⟨"light_b", "org.activehome.Light"⟩]⟩] }
  settings := { Settings.forNode "home1" with bindingPrefix := "wire" }

/-- The steps to a request for a sensor that leads to both lights and to a siren. -/
def sensorSteps : List Draft.Step :=
  [.setValue "level" "2", .addSpec "out>Light.in", .setPrefix "wire",
    .addSpec "alarm>Light.ring, out>Panel.led", .addToken "alarm" "home2.siren.trigger"]

theorem exists_startScript_of_drafted_sensorSteps :
    ∃ c, (Draft.drafted "org.activehome.Sensor" "s1" sensorSteps).finish = .ok c ∧
      (∀ key value, .setValue key value ∈ sensorSteps →
        carries (Draft.lastPrefix sensorSteps) key = false) ∧
      twoLights.settings.validate = .ok () ∧
      twoLights.settings.bindingPrefix = Draft.lastPrefix sensorSteps ∧
      (∀ component ∈ twoLights.model.components twoLights.node,
        component.name ≠ "" ∧ '.' ∉ component.name.toList) ∧
      ∃ script, twoLights.startScript c = .ok script := by
  have hfinish : (Draft.drafted "org.activehome.Sensor" "s1" sensorSteps).finish = .ok
      { typeName := "org.activehome.Sensor"
        id := "s1"
        attributes := .ofList [("level", "2"), ("wire", "out>Light.in"),
          ("wire_1", "alarm>Light.ring, out>Panel.led")]
        portBindings := .ofList [("alarm", ["home2.siren.trigger"])] } := by decide +kernel
  have hplain : ∀ key value, .setValue key value ∈ sensorSteps →
      carries (Draft.lastPrefix sensorSteps) key = false := by
    intro key value hstep
    obtain ⟨rfl, rfl⟩ : key = "level" ∧ value = "2" := by simpa [sensorSteps] using hstep
    decide
  have hsettings : twoLights.settings.validate = .ok () := by decide
  have hmark : twoLights.settings.bindingPrefix = Draft.lastPrefix sensorSteps := by decide
  have hids : ∀ component ∈ twoLights.model.components twoLights.node,
      component.name ≠ "" ∧ '.' ∉ component.name.toList := by decide
  exact ⟨_, hfinish, hplain, hsettings, hmark, hids,
    exists_startScript_of_drafted hfinish hplain hsettings hmark hids⟩

end Synthesis

end Wiring
