import Wiring.Proofs.Model.Nodes
import Wiring.Proofs.Synthesis.Deferred

/-!
# What a start leaves in a model

The script of a start creates its component and wires the rest, so of all nodes only the one
of the settings changes, and there the component comes to stand last,
`components_startScript`.  The channels that it creates are new and derived from destinations
of its bindings, `newHubs_startScript`.  A script of deferred bindings only wires.
-/

namespace Wiring.Synthesis

/-- Channels for destinations of bindings that a model does not have, each once. -/
structure NewHubs (s : Synthesis) (bindings : PortBindings) (hubs : List Hub) : Prop where
  nodup : (hubs.map (·.name)).Nodup
  new : ∀ hub ∈ hubs, hub.name ∉ s.model.hubNames
  derived : ∀ hub ∈ hubs, ∃ d ∈ bindings.destinations,
    hub = ⟨(s.channelFor d).name, s.settings.channelType⟩

variable {s : Synthesis} {c : Component} {script : Script} {source : ComponentPath}
  {known : List ChannelId} {pairs : List (String × Destination)} {op : Op}

/-- Connecting ports creates the channels of the destinations, binds the destinations to
them, and binds the ports. -/
theorem exists_of_mem_connectAll (hop : op ∈ s.connectAll source known pairs) :
    ∃ pair ∈ pairs, op = .addChannel (s.channelFor pair.2) s.settings.channelType ∨
      op = .bind pair.2.portRef (s.channelFor pair.2) ∨
      op = .bind ⟨source, pair.1⟩ (s.channelFor pair.2) := by
  induction pairs generalizing known with
  | nil => exact absurd hop List.not_mem_nil
  | cons pair pairs ih =>
    rw [connectAll, List.mem_append] at hop
    rcases hop with hop | hop
    · refine ⟨pair, List.mem_cons_self, ?_⟩
      rw [connect, List.mem_append, List.mem_singleton] at hop
      rcases hop with hop | rfl
      · split at hop
        · exact absurd hop List.not_mem_nil
        · rcases List.mem_cons.1 hop with rfl | hop
          · exact Or.inl rfl
          · exact Or.inr (Or.inl (List.mem_singleton.1 hop))
      · exact Or.inr (Or.inr rfl)
    · obtain ⟨pair', hmem, hcases⟩ := ih hop
      exact ⟨pair', List.mem_cons_of_mem _ hmem, hcases⟩

theorem cases_of_mem_connectAll (hop : op ∈ s.connectAll source known pairs) :
    (∃ channel, op = .addChannel channel s.settings.channelType) ∨
      ∃ port channel, op = .bind port channel := by
  obtain ⟨pair, -, hadd | hbind | hbind⟩ := exists_of_mem_connectAll hop
  · exact Or.inl ⟨_, hadd⟩
  · exact Or.inr ⟨_, _, hbind⟩
  · exact Or.inr ⟨_, _, hbind⟩

theorem isWiring_connectAll (s : Synthesis) (source : ComponentPath) (known : List ChannelId)
    (pairs : List (String × Destination)) :
    Script.IsWiring (s.connectAll source known pairs) := by
  intro op hop
  rcases cases_of_mem_connectAll hop with ⟨channel, rfl⟩ | ⟨port, channel, rfl⟩
  · rfl
  · rfl

theorem isWiring_bindingScript {keys : List String} (h : s.bindingScript c keys = .ok script) :
    script.IsWiring := by
  obtain ⟨-, bindings, pairs, -, -, rfl⟩ := bindingScript_eq_ok_iff.1 h
  exact isWiring_connectAll s _ _ _

/-- A start creates its component first and then only wires. -/
theorem startScript_eq_cons (h : s.startScript c = .ok script) :
    ∃ wiring : Script, script = .addComponent (c.path s.node) c.typeName :: wiring ∧
      wiring.IsWiring := by
  obtain ⟨-, bindings, pairs, -, -, rfl⟩ := startScript_eq_ok_iff.1 h
  refine ⟨_, List.cons_append, fun op hop => ?_⟩
  rcases List.mem_append.1 hop with hset | hconnect
  · obtain ⟨entry, -, rfl⟩ := List.mem_map.1 hset
    rfl
  · exact isWiring_connectAll s _ _ _ op hconnect

/-- Of the operations of a start script only the creation of the component matters to the
nodes. -/
theorem nodes_startScript (h : s.startScript c = .ok script) (m : Model) :
    (m.applyScript script).nodes =
      (m.applyOp (.addComponent (c.path s.node) c.typeName)).nodes := by
  obtain ⟨wiring, rfl, hwiring⟩ := startScript_eq_cons h
  exact Model.nodes_applyScript_of_wiring hwiring _

/-- The component comes to stand last on its node. -/
theorem components_startScript (h : s.startScript c = .ok script) {m : Model}
    (hnode : m.HasNode s.node) :
    (m.applyScript script).components s.node =
      m.components s.node ++ [⟨c.id, c.typeName⟩] := by
  rw [Model.components_congr (nodes_startScript h m), Model.components_addComponent,
    if_pos ⟨rfl, hnode⟩]
  rfl

/-- Removing the component again leaves the nodes as they were. -/
theorem nodes_startScript_remove (h : s.startScript c = .ok script) {m : Model}
    (hfree : c.id ∉ m.ids s.node) :
    ((m.applyScript script).applyOp (.remove (c.path s.node))).nodes = m.nodes := by
  rw [Model.nodes_applyOp_congr (nodes_startScript h m)]
  exact Model.nodes_create_remove hfree c.typeName

/-- The channels that a start creates are new and lead to destinations of its bindings. -/
theorem newHubs_startScript (h : s.startScript c = .ok script) :
    ∃ bindings, s.effectiveBindings c = .ok bindings ∧ s.NewHubs bindings script.addedHubs := by
  obtain ⟨hnodup, hnew⟩ := addedChannels_startScript h
  obtain ⟨-, bindings, pairs, hbindings, hread, rfl⟩ := startScript_eq_ok_iff.1 h
  have htypes : ∀ channel created, Op.addChannel channel created ∈ s.startWith c pairs →
      created = s.settings.channelType := by
    intro channel created hmem
    rcases List.mem_append.1 hmem with hfront | hconnect
    · simp at hfront
    · rcases cases_of_mem_connectAll hconnect with ⟨channel', heq⟩ | ⟨port, channel', heq⟩
      · exact (Op.addChannel.inj heq).2
      · simp at heq
  have hhubs := Script.addedHubs_eq htypes
  have hfresh : ∀ channel ∈ (s.startWith c pairs).addedChannels,
      channel.name ∉ s.model.hubNames :=
    fun channel hmem => Model.findHub_eq_none_iff.1 (hnew channel hmem)
  refine ⟨bindings, hbindings, ?_⟩
  change s.NewHubs bindings (s.startWith c pairs).addedHubs
  rw [hhubs]
  refine ⟨?_, fun hub hhub => ?_, fun hub hhub => ?_⟩
  · rw [List.map_map]
    exact nodup_map_name hnodup
  · obtain ⟨channel, hmem, rfl⟩ := List.mem_map.1 hhub
    exact hfresh channel hmem
  · obtain ⟨channel, hmem, rfl⟩ := List.mem_map.1 hhub
    have hmissing := hfresh channel hmem
    rw [addedChannels_startWith] at hmem
    -- A channel that is created belongs to one of the destinations.
    have hpair : channel ∈ pairs.map fun pair => s.channelFor pair.2 := by
      rcases (mem_addedChannels_connectAll s _ [] pairs channel).1 (Or.inr hmem) with
        (hthere | hknown) | hpair
      · exact absurd (Model.has_channel_iff.1 hthere) hmissing
      · exact absurd hknown List.not_mem_nil
      · exact hpair
    obtain ⟨pair, hin, rfl⟩ := List.mem_map.1 hpair
    refine ⟨pair.2, ?_, rfl⟩
    rw [PortBindings.destinations, destinations_of_readPairs hread]
    exact List.mem_map_of_mem hin

end Wiring.Synthesis
