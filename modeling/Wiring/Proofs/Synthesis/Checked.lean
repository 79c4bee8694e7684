import Wiring.Proofs.Script.InOrder
import Wiring.Proofs.Synthesis.Scripts

/-!
# Synthesized scripts pass the check

A script that synthesis makes for a component is in order on the model that it was made
for.  While the ports are connected, what exists is what the model has, the component, and
the channels of the destinations so far: `Ready` says so, a connection keeps it, and it
gives each operation what it needs, `inOrder_connectAll`.  The destinations exist as well.
Those that come from specifications are printed for components of the node and read again,
the explicit ones have to lead to something that exists, `Reaches`.
-/

namespace Wiring

/-- What a specification leads to, read again, is there. -/
theorem BindingEntry.has_of_mem_destinations {entry : BindingEntry} {m : Model}
    {node token : String} (htoken : token ∈ entry.destinations m node) {d : Destination}
    (hparse : Destination.parse token = .ok d) : m.has (.component d.component) = true := by
  obtain ⟨path, hpath, rfl⟩ := List.mem_map.1 htoken
  obtain rfl := Destination.eq_of_parse_member hparse
  obtain ⟨rfl, component, hcomponent, hid⟩ := Model.exists_of_mem_runningOn hpath
  apply Model.has_component_iff.2
  exact List.mem_map.2 ⟨component, hcomponent, hid⟩

namespace Synthesis

open Script

variable {s : Synthesis} {source : ComponentPath} {known : List ChannelId}
  {present : Presence}

/-- A destination is a port of the component at `source` or of one that the model has. -/
def Finds (s : Synthesis) (source : ComponentPath) (d : Destination) : Prop :=
  s.model.has (.component d.component) = true ∨ d.component = source

instance (s : Synthesis) (source : ComponentPath) (d : Destination) :
    Decidable (s.Finds source d) :=
  inferInstanceAs (Decidable (_ ∨ _))

/-- A token that names a destination names such a one. -/
def Reaches (s : Synthesis) (source : ComponentPath) (token : String) : Prop :=
  match Destination.parse token with
  | .ok d => s.Finds source d
  | .error _ => True

instance (s : Synthesis) (source : ComponentPath) (token : String) :
    Decidable (s.Reaches source token) :=
  match h : Destination.parse token with
  | .ok d => decidable_of_iff (s.Finds source d) (by simp only [Reaches, h])
  | .error _ => isTrue (by simp only [Reaches, h])

theorem reaches_iff {token : String} :
    s.Reaches source token ↔ ∀ d, Destination.parse token = .ok d → s.Finds source d := by
  rw [Reaches]
  split <;> simp_all

/-! ## Connections -/

/-- What exists while the component at `source` is connected.  `known` are the channels of
the destinations so far. -/
structure Ready (s : Synthesis) (source : ComponentPath) (known : List ChannelId)
    (present : Presence) : Prop where
  source : present (.component source) = true
  components : ∀ path, s.model.has (.component path) = true → present (.component path) = true
  channels : ∀ channel, present (.channel channel) = true ↔
    s.model.has (.channel channel) = true ∨ channel ∈ known

namespace Ready

variable {port : String} {d : Destination}

theorem destination (h : s.Ready source known present) (hd : s.Finds source d) :
    present (.component d.component) = true := by
  rcases hd with hhas | hself
  · exact h.components _ hhas
  · rw [hself]
    exact h.source

theorem inOrder_connect (h : s.Ready source known present)
    (hd : present (.component d.component) = true) :
    InOrder present (s.connect source known port d) := by
  have hchannel := h.channels (s.channelFor d)
  by_cases hthere : s.model.has (.channel (s.channelFor d)) = true ∨ s.channelFor d ∈ known
  · rw [connect_of_there hthere]
    exact inOrder_cons.2 ⟨⟨h.source, hchannel.2 hthere⟩, inOrder_nil _⟩
  · rw [connect_of_new hthere]
    have hnew : present (.channel (s.channelFor d)) = false := by
      apply Bool.eq_false_iff.2
      exact fun hpresent => hthere (hchannel.1 hpresent)
    -- Both bindings find the channel that was created before them.
    have hadded : present.after [.addChannel (s.channelFor d) s.settings.channelType]
        (.channel (s.channelFor d)) = true := by
      apply Presence.after_eq_true_iff.2
      exact Or.inr (by simp [additions, Op.creates])
    have hdestination := Presence.after_of_present
      [.addChannel (s.channelFor d) s.settings.channelType] hd
    have hsource := Presence.after_of_present
      [.addChannel (s.channelFor d) s.settings.channelType] h.source
    refine inOrder_cons.2 ⟨hnew, inOrder_cons.2 ⟨⟨hdestination, hadded⟩, ?_⟩⟩
    refine inOrder_cons.2 ⟨⟨?_, ?_⟩, inOrder_nil _⟩
    · exact Presence.after_of_present _ hsource
    · exact Presence.after_of_present _ hadded

/-- After a connection the channel of its destination is known. -/
theorem connect (h : s.Ready source known present) :
    s.Ready source (known ++ [s.channelFor d])
      (present.after (s.connect source known port d)) where
  source := Presence.after_of_present _ h.source
  components path hpath := Presence.after_of_present _ (h.components path hpath)
  channels channel := by
    rw [Presence.after_eq_true_iff, h.channels, List.mem_append, List.mem_singleton]
    by_cases hthere : s.model.has (.channel (s.channelFor d)) = true ∨ s.channelFor d ∈ known
    · -- Nothing is created, and the channel that joins the known ones was there.
      rw [connect_of_there hthere]
      constructor
      · rintro (hchannel | hadded)
        · exact hchannel.imp_right Or.inl
        · simp [additions, Op.creates] at hadded
      · rintro (hhas | hknown | rfl)
        · exact Or.inl (Or.inl hhas)
        · exact Or.inl (Or.inr hknown)
        · exact Or.inl hthere
    · -- The one channel that is created joins the known ones.
      rw [connect_of_new hthere, or_assoc]
      simp [additions, Op.creates]

end Ready

/-- Connecting to destinations that exist goes in order. -/
theorem inOrder_connectAll {pairs : List (String × Destination)}
    (h : s.Ready source known present)
    (hpairs : ∀ pair ∈ pairs, present (.component pair.2.component) = true) :
    InOrder present (s.connectAll source known pairs) := by
  induction pairs generalizing known present with
  | nil => exact inOrder_nil present
  | cons pair pairs ih =>
    have hd : present (.component pair.2.component) = true := hpairs pair List.mem_cons_self
    rw [connectAll]
    refine inOrder_append.2 ⟨h.inOrder_connect hd, ih h.connect fun p hp => ?_⟩
    exact Presence.after_of_present _ (hpairs p (List.mem_cons_of_mem _ hp))

/-! ## Destinations -/

/-- Where the explicit tokens lead to what exists, so does everything that is read after
filling in specifications. -/
theorem finds_of_fillAll {map bindings : PortBindings} {specs : List String}
    (hmap : map.Holds (fun _ => True) (s.Reaches source))
    (hfill : map.fillAll s.model s.node specs = .ok bindings)
    {pairs : List (String × Destination)}
    (hread : readPairs (tokenPairs bindings) = .ok pairs) :
    ∀ pair ∈ pairs, s.Finds source pair.2 := by
  -- What a specification adds is a component of the model, so it needs no assumption.
  have hbindings : bindings.Holds (fun _ => True) (s.Reaches source) := by
    refine PortBindings.Holds.fillAll (fun spec entries _ entry _ => ⟨trivial, ?_⟩) hmap hfill
    intro token htoken
    apply reaches_iff.2
    exact fun d hparse => Or.inl (entry.has_of_mem_destinations htoken hparse)
  intro pair hpair
  obtain ⟨token, hmem, hparse⟩ := (mem_readPairs hread).2 pair.1 pair.2 hpair
  obtain ⟨tokens, hentry, htoken⟩ := mem_tokenPairs_iff.1 hmem
  exact reaches_iff.1 ((hbindings _ hentry).2 token htoken) pair.2 hparse

/-! ## Scripts -/

theorem inOrder_attributes (h : present (.component source) = true)
    (entries : List (String × String)) :
    InOrder present (entries.map fun entry => .setAttribute source entry.1 entry.2) := by
  induction entries generalizing present with
  | nil => exact inOrder_nil present
  | cons entry entries ih =>
    rw [List.map_cons]
    exact inOrder_cons.2 ⟨h, ih (Presence.after_of_present _ h)⟩

theorem after_attributes (present : Presence) (path : ComponentPath)
    (entries : List (String × String)) :
    present.after (entries.map fun entry => .setAttribute path entry.1 entry.2) = present := by
  have hnone : additions (entries.map fun entry => .setAttribute path entry.1 entry.2) = [] := by
    rw [additions, List.filterMap_map]
    exact List.filterMap_eq_nil_iff.2 fun _ _ => rfl
  funext t
  simp [Presence.after, hnone]

/-- The component that was added is ready to be connected. -/
theorem ready_addComponent (s : Synthesis) (source : ComponentPath) (typeName : String) :
    s.Ready source [] (Presence.after s.model.has [.addComponent source typeName]) where
  source := by simp [Presence.after, additions, Op.creates]
  components _ hpath := Presence.after_of_present _ hpath
  channels _ := by simp [Presence.after, additions, Op.creates]

theorem ready_of_has (hrunning : s.model.has (.component source) = true) :
    s.Ready source [] s.model.has where
  source := hrunning
  components _ hpath := hpath
  channels _ := by simp

variable {c : Component} {script : Script}

/-- Where a component can be created, starting it goes in order if it can be connected
afterwards. -/
theorem inOrder_start (hfree : present (.component (c.path s.node)) = false)
    {pairs : List (String × Destination)}
    (hready : s.Ready (c.path s.node) []
      (present.after [.addComponent (c.path s.node) c.typeName]))
    (hpairs : ∀ pair ∈ pairs, present.after [.addComponent (c.path s.node) c.typeName]
      (.component pair.2.component) = true) :
    InOrder present (.addComponent (c.path s.node) c.typeName ::
      (c.plainAttributes s.settings.bindingPrefix).map
        (fun entry => .setAttribute (c.path s.node) entry.1 entry.2) ++
      s.connectAll (c.path s.node) [] pairs) := by
  rw [List.cons_append]
  -- The component is there for its attributes, and they leave what exists as it is.
  refine inOrder_cons.2 ⟨hfree, inOrder_append.2 ⟨inOrder_attributes hready.source _, ?_⟩⟩
  rw [after_attributes]
  exact inOrder_connectAll hready hpairs

theorem inOrder_startScript (hfree : s.model.has (.component (c.path s.node)) = false)
    (hexplicit : c.portBindings.Holds (fun _ => True) (s.Reaches (c.path s.node)))
    (h : s.startScript c = .ok script) : script.InOrder s.model.has := by
  obtain ⟨-, bindings, pairs, hbindings, hread, rfl⟩ := startScript_eq_ok_iff.1 h
  have hready := ready_addComponent s (c.path s.node) c.typeName
  have hpairs := finds_of_fillAll hexplicit hbindings hread
  exact inOrder_start hfree hready fun pair hpair => hready.destination (hpairs pair hpair)

theorem inOrder_bindingScript (hrunning : s.model.has (.component (c.path s.node)) = true)
    {keys : List String} (h : s.bindingScript c keys = .ok script) :
    script.InOrder s.model.has := by
  obtain ⟨-, bindings, pairs, hbindings, hread, rfl⟩ := bindingScript_eq_ok_iff.1 h
  have hnone : PortBindings.Holds (fun _ => True) (s.Reaches (c.path s.node)) .empty :=
    PortBindings.holds_empty
  have hpairs := finds_of_fillAll hnone hbindings hread
  have hready := ready_of_has hrunning
  exact inOrder_connectAll hready fun pair hpair => hready.destination (hpairs pair hpair)

/-- What synthesis makes for a component passes the check: the script that starts it where
its id is free and the explicit destinations exist, and the script that binds it where it
runs. -/
theorem check_synthesized (s : Synthesis) (c : Component) :
    (s.model.findComponent s.node c.id = none →
      (∀ entry ∈ c.portBindings.entries, ∀ token ∈ entry.2,
        s.Reaches (c.path s.node) token) →
      ∀ script, s.startScript c = .ok script → script.check s.model = .ok ()) ∧
    ((s.model.findComponent s.node c.id).isSome →
      ∀ keys script, s.bindingScript c keys = .ok script → script.check s.model = .ok ()) := by
  constructor
  · intro hfree hexplicit script hscript
    apply check_eq_ok_iff_inOrder.2
    refine inOrder_startScript ?_ ?_ hscript
    · rw [Model.has, Component.path, hfree]
      rfl
    · exact fun entry hentry => ⟨trivial, hexplicit entry hentry⟩
  · intro hrunning keys script hscript
    apply check_eq_ok_iff_inOrder.2
    exact inOrder_bindingScript hrunning hscript

/-- A node with a lamp. -/
def oneLamp : Synthesis where
  model := { nodes := [⟨"home1", [⟨"light_a", "org.activehome.Light"⟩]⟩] }
  settings := .forNode "home1"

/-- A switch that leads to a port of its own, and by a specification to the lamp. -/
def loopedSwitch : Component where
  typeName := "org.activehome.Switch"
  id := "s1"
  attributes := .ofList [("bindingLamp", "o>org.activehome.Light.in")]
  portBindings := .ofList [("o", ["home1.s1.back"])]

/-- The script that starts the switch. -/
def loopedSwitchScript : Script :=
  [.addComponent ⟨"home1", "s1"⟩ "org.activehome.Switch",
    .addChannel ⟨"chan_back_home1_s1"⟩ "AsyncBroadcast",
    .bind ⟨⟨"home1", "s1"⟩, "back"⟩ ⟨"chan_back_home1_s1"⟩,
    .bind ⟨⟨"home1", "s1"⟩, "o"⟩ ⟨"chan_back_home1_s1"⟩,
    .addChannel ⟨"chan_in_home1_light_a"⟩ "AsyncBroadcast",
    .bind ⟨⟨"home1", "light_a"⟩, "in"⟩ ⟨"chan_in_home1_light_a"⟩,
    .bind ⟨⟨"home1", "s1"⟩, "o"⟩ ⟨"chan_in_home1_light_a"⟩]

/-- The lamp, with a specification that leads to the lamp itself. -/
def loopedLamp : Component where
  typeName := "org.activehome.Light"
  id := "light_a"
  attributes := .ofList [("bindingSelf", "out>org.activehome.Light.in")]

/-- The script that binds the lamp. -/
def loopedLampScript : Script :=
  [.addChannel ⟨"chan_in_home1_light_a"⟩ "AsyncBroadcast",
    .bind ⟨⟨"home1", "light_a"⟩, "in"⟩ ⟨"chan_in_home1_light_a"⟩,
    .bind ⟨⟨"home1", "light_a"⟩, "out"⟩ ⟨"chan_in_home1_light_a"⟩]

theorem check_synthesized_looped :
    (oneLamp.model.findComponent oneLamp.node loopedSwitch.id = none ∧
      (∀ entry ∈ loopedSwitch.portBindings.entries, ∀ token ∈ entry.2,
        oneLamp.Reaches (loopedSwitch.path oneLamp.node) token) ∧
      oneLamp.startScript loopedSwitch = .ok loopedSwitchScript ∧
      loopedSwitchScript.check oneLamp.model = .ok ()) ∧
    (oneLamp.model.findComponent oneLamp.node loopedLamp.id).isSome ∧
      oneLamp.bindingScript loopedLamp ["bindingSelf"] = .ok loopedLampScript ∧
      loopedLampScript.check oneLamp.model = .ok () := by
  have hfree : oneLamp.model.findComponent oneLamp.node loopedSwitch.id = none := by
    decide +kernel
  have hrunning : (oneLamp.model.findComponent oneLamp.node loopedLamp.id).isSome := by
    decide +kernel
  have hexplicit : ∀ entry ∈ loopedSwitch.portBindings.entries, ∀ token ∈ entry.2,
      oneLamp.Reaches (loopedSwitch.path oneLamp.node) token := by decide +kernel
  have hstart : oneLamp.startScript loopedSwitch = .ok loopedSwitchScript := by decide +kernel
  have hbind : oneLamp.bindingScript loopedLamp ["bindingSelf"] = .ok loopedLampScript := by
    decide +kernel
  exact ⟨⟨hfree, hexplicit, hstart,
      (check_synthesized oneLamp loopedSwitch).1 hfree hexplicit _ hstart⟩,
    hrunning, hbind, (check_synthesized oneLamp loopedLamp).2 hrunning _ _ hbind⟩

end Synthesis

end Wiring
