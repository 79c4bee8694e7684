import Wiring.Proofs.Synthesis.Checked
import Wiring.Proofs.Synthesis.Refusals
import Wiring.Proofs.Binding.Pairs

/-!
# The shape of a start script

A start is refused for a blank id or type, for a specification that cannot be read, or for a
token that is not three names between dots, `Refuses`.  Otherwise the script is determined
place by place: the component, its plain attributes, and then for each pair of a port and a
token the binding of the port, where the first pair with a channel that the model does not
have brings along the channel and the binding of its destination, `laidOut`.

The main statement is `startScript_shape`.  It goes on to say what follows for the channels:
each is created once, none that the model has, and all before they are used.
-/

namespace Wiring

theorem Component.validate_eq_ok_iff {c : Component} :
    c.validate = .ok () ↔
      ¬ Text.isBlankText c.id = true ∧ ¬ Text.isBlankText c.typeName = true := by
  unfold validate
  split
  · rename_i hid
    simp [hid]
  · rename_i hid
    split
    · rename_i htype
      simp [htype]
    · rename_i htype
      exact iff_of_true rfl ⟨hid, htype⟩

/-- A script creates each of its channels once, none that the model has, and before any
operation that uses it. -/
structure Script.CreatesChannelsFirst (m : Model) (script : Script) : Prop where
  once : script.addedChannels.Nodup
  new : ∀ channel ∈ script.addedChannels, m.findHub channel.name = none
  first : ∀ front op back, script = front ++ op :: back →
    ∀ channel, .channel channel ∈ op.uses →
      channel ∈ Script.addedChannels front ∨ (m.findHub channel.name).isSome

namespace Synthesis

open Script

/-- What a start is refused for. -/
def Refuses (s : Synthesis) (c : Component) : Prop :=
  Text.isBlankText c.id = true ∨ Text.isBlankText c.typeName = true ∨
    (∃ entry ∈ c.attributes.entries, carries s.settings.bindingPrefix entry.1 = true ∧
      ¬ PortBindings.Readable entry.2) ∨
    ∃ bindings, s.effectiveBindings c = .ok bindings ∧
      ∃ entry ∈ bindings.entries, ∃ token ∈ entry.2, ¬ Destination.IsToken token

/-- The operations for one pair of a port and a destination, behind the pairs `earlier`. -/
def pairScript (s : Synthesis) (source : ComponentPath) (earlier : List (String × Destination))
    (pair : String × Destination) : Script :=
  let channel := s.channelFor pair.2
  if s.model.findHub channel.name = none ∧ ∀ other ∈ earlier, s.channelFor other.2 ≠ channel then
    [.addChannel channel s.settings.channelType, .bind pair.2.portRef channel,
      .bind ⟨source, pair.1⟩ channel]
  else [.bind ⟨source, pair.1⟩ channel]

/-- The operations that start a component whose ports lead to destinations. -/
def laidOut (s : Synthesis) (c : Component) (pairs : List (String × Destination)) : Script :=
  let path := c.path s.node
  .addComponent path c.typeName ::
    (c.plainAttributes s.settings.bindingPrefix).map
      (fun entry => .setAttribute path entry.1 entry.2) ++
    (pairs.mapIdx fun i pair => s.pairScript path (pairs.take i) pair).flatten

variable {s : Synthesis} {c : Component} {script : Script} {source : ComponentPath}

/-! ## Place by place -/

theorem connect_eq_pairScript (s : Synthesis) (source : ComponentPath)
    (earlier : List (String × Destination)) (port : String) (d : Destination) :
    s.connect source (earlier.map fun pair => s.channelFor pair.2) port d =
      s.pairScript source earlier (port, d) := by
  by_cases hthere : s.model.has (.channel (s.channelFor d)) = true ∨
      s.channelFor d ∈ earlier.map fun pair => s.channelFor pair.2
  · rw [connect_of_there hthere, pairScript, if_neg]
    rintro ⟨hhub, hnew⟩
    rcases hthere with hhas | hknown
    · rw [Model.has, hhub] at hhas
      exact Bool.noConfusion hhas
    · obtain ⟨other, hother, hsame⟩ := List.mem_map.1 hknown
      exact hnew other hother hsame
  · obtain ⟨hhas, hknown⟩ := not_or.1 hthere
    rw [connect_of_new hthere, pairScript, if_pos]
    refine ⟨?_, fun other hother hsame => hknown (List.mem_map.2 ⟨other, hother, hsame⟩)⟩
    rwa [Model.has, Option.not_isSome_iff_eq_none] at hhas

/-- What is known when a pair has its turn are the channels of the pairs before it. -/
theorem connectAll_eq_flatten (s : Synthesis) (source : ComponentPath)
    (earlier pairs : List (String × Destination)) :
    s.connectAll source (earlier.map fun pair => s.channelFor pair.2) pairs =
      (pairs.mapIdx fun i pair => s.pairScript source (earlier ++ pairs.take i) pair).flatten := by
  induction pairs generalizing earlier with
  | nil => rfl
  | cons pair pairs ih =>
    have hrest := ih (earlier ++ [pair])
    rw [List.map_append, List.map_singleton] at hrest
    rw [connectAll, connect_eq_pairScript, hrest, List.mapIdx_cons, List.flatten_cons]
    simp

theorem startScript_eq_ok_iff_laidOut :
    s.startScript c = .ok script ↔
      c.validate = .ok () ∧ ∃ bindings pairs, s.effectiveBindings c = .ok bindings ∧
        readPairs (tokenPairs bindings) = .ok pairs ∧ script = s.laidOut c pairs := by
  have hconnect : ∀ pairs, s.connectAll (c.path s.node) [] pairs =
      (pairs.mapIdx fun i pair => s.pairScript (c.path s.node) (pairs.take i) pair).flatten :=
    fun pairs => connectAll_eq_flatten s (c.path s.node) [] pairs
  simp only [startScript_eq_ok_iff, hconnect, laidOut]

/-! ## Refusals -/

/-- The pairs that are read have the tokens as the texts of their destinations. -/
theorem readPairs_eq_ok_iff {tokens : List (String × String)}
    {pairs : List (String × Destination)} :
    readPairs tokens = .ok pairs ↔
      (∀ pair ∈ pairs, pair.2.IsPlain) ∧ pairs.map (fun pair => (pair.1, pair.2.text)) = tokens := by
  induction tokens generalizing pairs with
  | nil =>
    constructor
    · intro h
      obtain rfl : [] = pairs := by simpa [readPairs] using h
      simp
    · rintro ⟨-, h⟩
      rw [List.map_eq_nil_iff.1 h]
      rfl
  | cons first tokens ih =>
    obtain ⟨port, token⟩ := first
    rw [readPairs_cons_eq_ok_iff]
    constructor
    · rintro ⟨d, others, hparse, hothers, rfl⟩
      obtain ⟨hplain, htext⟩ := Destination.parse_eq_ok_iff.1 hparse
      obtain ⟨hplains, hmap⟩ := ih.1 hothers
      refine ⟨List.forall_mem_cons.2 ⟨hplain, hplains⟩, ?_⟩
      rw [List.map_cons, hmap, htext]
    · rintro ⟨hplains, hmap⟩
      obtain ⟨pair, others, rfl, hfirst, hrest⟩ := List.map_eq_cons_iff.1 hmap
      obtain ⟨rfl, rfl⟩ := Prod.mk.inj hfirst
      obtain ⟨hplain, hplains⟩ := List.forall_mem_cons.1 hplains
      exact ⟨pair.2, others, Destination.parse_eq_ok_iff.2 ⟨hplain, rfl⟩,
        ih.2 ⟨hplains, hrest⟩, rfl⟩

theorem exists_readPairs_iff {tokens : List (String × String)} :
    (∃ pairs, readPairs tokens = .ok pairs) ↔
      ∀ pair ∈ tokens, Destination.IsToken pair.2 := by
  induction tokens with
  | nil => simp [readPairs]
  | cons first tokens ih =>
    rw [List.forall_mem_cons, ← ih]
    constructor
    · rintro ⟨pairs, h⟩
      obtain ⟨d, others, hparse, hothers, -⟩ := readPairs_cons_eq_ok_iff.1 h
      exact ⟨⟨d, Destination.parse_eq_ok_iff.1 hparse⟩, others, hothers⟩
    · rintro ⟨⟨d, hd⟩, others, hothers⟩
      exact ⟨_, readPairs_cons_eq_ok_iff.2
        ⟨d, others, Destination.parse_eq_ok_iff.2 hd, hothers, rfl⟩⟩

/-- The bindings of a start can be collected when its specifications can be read. -/
theorem exists_effectiveBindings_iff :
    (∃ bindings, s.effectiveBindings c = .ok bindings) ↔
      ∀ entry ∈ c.attributes.entries, carries s.settings.bindingPrefix entry.1 = true →
        PortBindings.Readable entry.2 := by
  rw [effectiveBindings, PortBindings.exists_fillAll_iff, specs, List.forall_mem_map,
    Component.bindingAttributes]
  simp only [List.mem_filter, and_imp]

theorem exists_startScript_iff : (∃ script, s.startScript c = .ok script) ↔ ¬ s.Refuses c := by
  have hpairs : ∀ bindings, (∃ pairs, readPairs (tokenPairs bindings) = .ok pairs) ↔
      ∀ entry ∈ bindings.entries, ∀ token ∈ entry.2, Destination.IsToken token := by
    intro bindings
    rw [exists_readPairs_iff]
    constructor
    · exact fun h entry hentry token htoken =>
        h (entry.1, token) (mem_tokenPairs_iff.2 ⟨entry.2, hentry, htoken⟩)
    · rintro h ⟨port, token⟩ hpair
      obtain ⟨tokens, hentry, htoken⟩ := mem_tokenPairs_iff.1 hpair
      exact h _ hentry token htoken
  simp only [Refuses, not_or, not_exists, not_and, not_not]
  constructor
  · rintro ⟨script, h⟩
    obtain ⟨hvalid, bindings, pairs, hbindings, hread, -⟩ := startScript_eq_ok_iff.1 h
    obtain ⟨hid, htype⟩ := Component.validate_eq_ok_iff.1 hvalid
    refine ⟨hid, htype, exists_effectiveBindings_iff.1 ⟨bindings, hbindings⟩, ?_⟩
    intro bindings' hbindings'
    obtain rfl := Except.ok.inj (hbindings.symm.trans hbindings')
    exact (hpairs bindings).1 ⟨pairs, hread⟩
  · rintro ⟨hid, htype, hspecs, htokens⟩
    obtain ⟨bindings, hbindings⟩ := exists_effectiveBindings_iff.2 hspecs
    obtain ⟨pairs, hread⟩ := (hpairs bindings).2 (htokens bindings hbindings)
    exact ⟨_, startScript_eq_ok_iff.2
      ⟨Component.validate_eq_ok_iff.2 ⟨hid, htype⟩, bindings, pairs, hbindings, hread, rfl⟩⟩

/-! ## Channels -/

/-- Every component but one is there, and of the channels those of the model. -/
def allBut (s : Synthesis) (path : ComponentPath) : Presence
  | .component other => other ≠ path
  | .channel channel => s.model.has (.channel channel)

/-- Where all components are there but the one that it creates, a start goes in order. -/
theorem inOrder_startScript_allBut (h : s.startScript c = .ok script) :
    script.InOrder (s.allBut (c.path s.node)) := by
  obtain ⟨-, bindings, pairs, -, -, rfl⟩ := startScript_eq_ok_iff.1 h
  have hthere : ∀ path, (s.allBut (c.path s.node)).after
      [.addComponent (c.path s.node) c.typeName] (.component path) = true := by
    intro path
    simp [Presence.after, allBut, additions, Op.creates]
  refine inOrder_start (by simp [allBut]) ⟨hthere _, fun path _ => hthere path, ?_⟩
    fun pair _ => hthere _
  intro channel
  simp [Presence.after, allBut, additions, Op.creates]

theorem createsChannelsFirst_startScript (h : s.startScript c = .ok script) :
    script.CreatesChannelsFirst s.model := by
  obtain ⟨hnodup, hnew⟩ := addedChannels_startScript h
  refine ⟨hnodup, hnew, ?_⟩
  intro front op back hsplit channel hchannel
  have horder := inOrder_startScript_allBut h
  rw [hsplit] at horder
  have happlies := (inOrder_cons.1 (inOrder_append.1 horder).2).1
  rcases Presence.after_eq_true_iff.1 ((Op.applies_iff.1 happlies).2 _ hchannel) with hhas | hadded
  · exact Or.inr hhas
  · left
    obtain ⟨creation, hmem, hcreates⟩ := List.mem_filterMap.1 hadded
    refine List.mem_filterMap.2 ⟨creation, hmem, ?_⟩
    cases creation <;> simp_all [Op.creates]

/-! ## Main statement -/

/-- A start either is refused, or it has the script that is laid out for the pairs of its
bindings, in the order of the ports and of the tokens of each port. -/
theorem startScript_shape (s : Synthesis) (c : Component) :
    ((∃ failure, s.startScript c = .error failure) ↔ s.Refuses c) ∧
      (¬ s.Refuses c → ∃ bindings pairs, s.effectiveBindings c = .ok bindings ∧
        (∀ pair ∈ pairs, pair.2.IsPlain) ∧
        pairs.map (fun pair => (pair.1, pair.2.text)) =
          bindings.entries.flatMap (fun entry => entry.2.map fun token => (entry.1, token)) ∧
        s.startScript c = .ok (s.laidOut c pairs) ∧
        (s.laidOut c pairs).CreatesChannelsFirst s.model) := by
  constructor
  · rw [← not_iff_not, ← exists_startScript_iff]
    cases s.startScript c with
    | error failure => simp
    | ok script => simp
  · intro haccepts
    obtain ⟨script, hscript⟩ := exists_startScript_iff.2 haccepts
    obtain ⟨-, bindings, pairs, hbindings, hread, rfl⟩ :=
      startScript_eq_ok_iff_laidOut.1 hscript
    obtain ⟨hplain, htokens⟩ := readPairs_eq_ok_iff.1 hread
    exact ⟨bindings, pairs, hbindings, hplain, htokens, hscript,
      createsChannelsFirst_startScript hscript⟩

/-- A node with a lamp, and the channel of another one. -/
def halfWired : Synthesis where
  model :=
    { nodes := [⟨"home1", [⟨"light_a", "org.activehome.Light"⟩]⟩]
      hubs := [⟨"chan_in_home1_light_c", "AsyncBroadcast"⟩] }
  settings := .forNode "home1"

/-- A switch with ports that share destinations, given explicitly and by a specification. -/
def sharingSwitch : Component where
  typeName := "org.activehome.Switch"
  id := "s1"
  attributes := .ofList [("binding", "p>Light.in"), ("level", "3")]
  portBindings := .ofList [("o", ["home1.light_a.in", "home1.light_b.in", "home1.light_a.in"]),
    ("p", ["home1.light_b.in", "home1.light_c.in"])]

/-- The script that starts the switch. -/
def sharingScript : Script :=
  [.addComponent ⟨"home1", "s1"⟩ "org.activehome.Switch",
    .setAttribute ⟨"home1", "s1"⟩ "level" "3",
    .addChannel ⟨"chan_in_home1_light_a"⟩ "AsyncBroadcast",
    .bind ⟨⟨"home1", "light_a"⟩, "in"⟩ ⟨"chan_in_home1_light_a"⟩,
    .bind ⟨⟨"home1", "s1"⟩, "o"⟩ ⟨"chan_in_home1_light_a"⟩,
    .addChannel ⟨"chan_in_home1_light_b"⟩ "AsyncBroadcast",
    .bind ⟨⟨"home1", "light_b"⟩, "in"⟩ ⟨"chan_in_home1_light_b"⟩,
    .bind ⟨⟨"home1", "s1"⟩, "o"⟩ ⟨"chan_in_home1_light_b"⟩,
    .bind ⟨⟨"home1", "s1"⟩, "o"⟩ ⟨"chan_in_home1_light_a"⟩,
    .bind ⟨⟨"home1", "s1"⟩, "p"⟩ ⟨"chan_in_home1_light_b"⟩,
    .bind ⟨⟨"home1", "s1"⟩, "p"⟩ ⟨"chan_in_home1_light_c"⟩,
    .bind ⟨⟨"home1", "s1"⟩, "p"⟩ ⟨"chan_in_home1_light_a"⟩]

theorem shape_sharingScript :
    ¬ halfWired.Refuses sharingSwitch ∧ ∃ bindings pairs,
      halfWired.effectiveBindings sharingSwitch = .ok bindings ∧
        (∀ pair ∈ pairs, pair.2.IsPlain) ∧
        pairs.map (fun pair => (pair.1, pair.2.text)) =
          bindings.entries.flatMap (fun entry => entry.2.map fun token => (entry.1, token)) ∧
        sharingScript = halfWired.laidOut sharingSwitch pairs ∧
        sharingScript.CreatesChannelsFirst halfWired.model := by
  have hscript : halfWired.startScript sharingSwitch = .ok sharingScript := by decide +kernel
  have haccepts : ¬ halfWired.Refuses sharingSwitch := exists_startScript_iff.1 ⟨_, hscript⟩
  obtain ⟨bindings, pairs, hbindings, hplain, htokens, hlaid, hfirst⟩ :=
    (startScript_shape halfWired sharingSwitch).2 haccepts
  have hsame := Except.ok.inj (hscript.symm.trans hlaid)
  rw [← hsame] at hfirst
  exact ⟨haccepts, bindings, pairs, hbindings, hplain, htokens, hsame, hfirst⟩

end Synthesis

end Wiring
