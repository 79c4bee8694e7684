import Wiring.Proofs.Script.RoundTrip
import Wiring.Proofs.Settings
import Wiring.Proofs.Synthesis.Started

/-!
# Settings that scripts are read back with

The check of the settings keeps white space and dots out of the node and the channel type; the
words of a line leave out more.  With safe names in the request and on the node, the text of a
start script is read back as that script exactly when the node has word characters only and does
not begin a comment and, if the script creates a channel, the channel type is a bare word:
`parse_startScript_iff`.  Other settings pass the check, `parse_startScript_ne`.
-/

namespace Wiring

open Wiring.Text

/-- A node that addresses in a line can begin with. -/
structure FitsAddress (node : String) : Prop where
  isWordChar : ∀ c ∈ node.toList, Script.isWordChar c = true
  noComment : ¬ Script.BeginsComment node

instance (node : String) : Decidable (FitsAddress node) :=
  decidable_of_iff (node.toList.all Script.isWordChar = true ∧ ¬ Script.BeginsComment node)
    ⟨fun h => ⟨List.all_eq_true.1 h.1, h.2⟩, fun h => ⟨List.all_eq_true.2 h.1, h.2⟩⟩

/-- A usable node that fits is a field of an address. -/
theorem FitsAddress.isField {node : String} (h : FitsAddress node)
    (husable : Settings.IsUsable node) : Script.IsField node :=
  ⟨⟨husable.ne_empty, h.isWordChar⟩, husable.noDot⟩

/-! ## Destinations on one node -/

/-- The names of a destination are safe, except that the node may also be a given one. -/
structure Destination.SafeOn (node : String) (d : Destination) : Prop where
  node : IsName d.component.node ∨ d.component.node = node
  id : IsName d.component.id
  port : IsName d.port

theorem Destination.safeOn_of_safeToken {node token : String} {d : Destination}
    (htoken : SafeToken token) (hparse : parse token = .ok d) : d.SafeOn node := by
  rw [SafeToken, hparse] at htoken
  exact ⟨Or.inl htoken.node, htoken.id, htoken.port⟩

/-- The entries of specifications lead to components of the node. -/
theorem BindingEntry.safeOn_of_mem_destinations {entry : BindingEntry} {m : Model}
    {node token : String} {d : Destination} (hport : IsName entry.destPort)
    (hids : ∀ component ∈ m.components node, IsName component.name)
    (htoken : token ∈ entry.destinations m node) (hparse : Destination.parse token = .ok d) :
    d.SafeOn node := by
  obtain ⟨path, hpath, rfl⟩ := List.mem_map.1 htoken
  obtain ⟨hlocal, component, hcomponent, hid⟩ := Model.exists_of_mem_runningOn hpath
  obtain rfl := Destination.eq_of_parse_member hparse
  exact ⟨Or.inr hlocal, hid ▸ hids component hcomponent, hport⟩

namespace Synthesis

variable {s : Synthesis} {c : Component} {script : Script}

/-- Whatever a safe request asks for, its bindings lead from names to names. -/
theorem safeOn_of_effectiveBindings (hc : c.ScriptSafe)
    (hids : ∀ component ∈ s.model.components s.node, IsName component.name)
    {bindings : PortBindings} (hbindings : s.effectiveBindings c = .ok bindings)
    {pairs : List (String × Destination)} (hread : readPairs (tokenPairs bindings) = .ok pairs) :
    ∀ pair ∈ pairs, IsName pair.1 ∧ pair.2.SafeOn s.node := by
  have hsafe : bindings.Holds IsName
      fun token => ∀ d, Destination.parse token = .ok d → d.SafeOn s.node := by
    refine PortBindings.Holds.fillAll (fun spec entries hparse entry hentry => ?_)
      (fun entry hentry => ?_) hbindings
    · obtain ⟨hsource, hdest⟩ := BindingEntry.isName_of_parsePieces hparse entry hentry
      exact ⟨hsource, fun token htoken d =>
        BindingEntry.safeOn_of_mem_destinations hdest hids htoken⟩
    · obtain ⟨hport, htokens⟩ := hc.portBindings entry hentry
      exact ⟨hport, fun token htoken d => Destination.safeOn_of_safeToken (htokens token htoken)⟩
  rintro ⟨port, d⟩ hpair
  obtain ⟨token, htoken, hparse⟩ := (mem_readPairs hread).2 port d hpair
  obtain ⟨tokens, hentry, hmem⟩ := mem_tokenPairs_iff.1 htoken
  obtain ⟨hport, htokens⟩ := hsafe _ hentry
  exact ⟨hport, htokens token hmem d hparse⟩

/-! ## Operations that lines can express -/

theorem expressible_of_mem_connectAll (husable : Settings.IsUsable s.node)
    (hnode : FitsAddress s.node) {id : String} (hid : IsName id) {known : List ChannelId}
    {pairs : List (String × Destination)}
    (hpairs : ∀ pair ∈ pairs, IsName pair.1 ∧ pair.2.SafeOn s.node) {op : Op}
    (hop : op ∈ s.connectAll ⟨s.node, id⟩ known pairs)
    (htype : ∀ channel typeName, op = .addChannel channel typeName → Script.IsBare typeName) :
    op.Expressible := by
  have hfield := hnode.isField husable
  obtain ⟨⟨port, d⟩, hpair, hcases⟩ := exists_of_mem_connectAll hop
  obtain ⟨hport, hd⟩ := hpairs _ hpair
  have hname : Script.IsField (s.channelFor d).name :=
    isField_derive hd.port.isField hfield hd.id.isField
  have hchannel : Script.IsBare (s.channelFor d).name :=
    isBare_derive hd.port.isField hfield hd.id.isField
  have hdest : Script.IsField d.component.node ∧ ¬ Script.BeginsComment d.component.node := by
    rcases hd.node with hname | hlocal
    · exact ⟨hname.isField, hname.not_beginsComment⟩
    · exact hlocal ▸ ⟨hfield, hnode.noComment⟩
  rcases hcases with rfl | rfl | rfl
  · exact ⟨hchannel, hname.noDot, htype _ _ rfl⟩
  · exact ⟨hdest.1, hd.id.isField, hdest.2, hd.port.isWord, hchannel⟩
  · exact ⟨hfield, hid.isField, hnode.noComment, hport.isWord, hchannel⟩

theorem expressible_attribute (husable : Settings.IsUsable s.node) (hnode : FitsAddress s.node)
    {id key : String} (hid : IsName id) (hkey : IsName key) (value : String) :
    (Op.setAttribute ⟨s.node, id⟩ key value).Expressible :=
  ⟨hnode.isField husable, hid.isField, hkey.isWord,
    fun hcomment => absurd hcomment hnode.noComment⟩

/-- All channels that a start creates have the type of the settings. -/
theorem typeName_of_mem_startScript (h : s.startScript c = .ok script) {channel : ChannelId}
    {typeName : String} (hop : .addChannel channel typeName ∈ script) :
    typeName = s.settings.channelType := by
  obtain ⟨-, bindings, pairs, -, -, rfl⟩ := startScript_eq_ok_iff.1 h
  rcases List.mem_append.1 hop with hfront | hconnect
  · simp at hfront
  · rcases cases_of_mem_connectAll hconnect with ⟨other, heq⟩ | ⟨port, other, heq⟩
    · exact (Op.addChannel.inj heq).2
    · contradiction

/-- What lines need to express a start script: the node in all of them, and the channel type
where a channel is created. -/
theorem expressible_startScript_iff (hsettings : s.settings.validate = .ok ())
    (hc : c.ScriptSafe)
    (hids : ∀ component ∈ s.model.components s.node, IsName component.name)
    (h : s.startScript c = .ok script) :
    script.Expressible ↔ FitsAddress s.node ∧
      (script.addedChannels ≠ [] → Script.IsBare s.settings.channelType) := by
  have husable : Settings.IsUsable s.node := (Settings.validate_eq_ok_iff.1 hsettings).1
  have htypes := @typeName_of_mem_startScript s c script h
  obtain ⟨-, bindings, pairs, hbindings, hread, rfl⟩ := startScript_eq_ok_iff.1 h
  constructor
  · intro hall
    obtain ⟨hnode, -, hcomment, -⟩ :=
      hall (.addComponent (c.path s.node) c.typeName) List.mem_cons_self
    refine ⟨⟨hnode.isWord.2, hcomment⟩, fun hchannels => ?_⟩
    obtain ⟨channel, hchannel⟩ := List.exists_mem_of_ne_nil _ hchannels
    obtain ⟨op, hop, hcreates⟩ := List.mem_filterMap.1 hchannel
    cases op with
    | addChannel created typeName => exact htypes hop ▸ (hall _ hop).2.2
    | _ => simp at hcreates
  · rintro ⟨hnode, htype⟩ op hop
    rw [List.cons_append, List.mem_cons, List.mem_append] at hop
    rcases hop with rfl | hset | hconnect
    · exact ⟨hnode.isField husable, hc.id.isField, hnode.noComment, hc.typeName⟩
    · obtain ⟨entry, hentry, rfl⟩ := List.mem_map.1 hset
      have hkey := hc.attributes entry (List.mem_filter.1 hentry).1
      exact expressible_attribute husable hnode hc.id hkey entry.2
    · have hpairs := safeOn_of_effectiveBindings hc hids hbindings hread
      refine expressible_of_mem_connectAll husable hnode hc.id hpairs hconnect ?_
      rintro channel typeName rfl
      have hmem := List.mem_append_right
        (.addComponent (c.path s.node) c.typeName ::
          (c.plainAttributes s.settings.bindingPrefix).map
            fun entry => Op.setAttribute (c.path s.node) entry.1 entry.2) hconnect
      rw [htypes hmem]
      exact htype (List.ne_nil_of_mem (List.mem_filterMap.2 ⟨_, hmem, rfl⟩))

/-- With safe names in the request and on the node, settings that pass their check give a start
script that is read back from its text exactly when addresses can begin with the node and, if a
channel is created, its type can stand alone in a line. -/
theorem parse_startScript_iff (hsettings : s.settings.validate = .ok ()) (hc : c.ScriptSafe)
    (hids : ∀ component ∈ s.model.components s.node, IsName component.name)
    (h : s.startScript c = .ok script) :
    Script.parse script.text = .ok script ↔ FitsAddress s.node ∧
      (script.addedChannels ≠ [] → Script.IsBare s.settings.channelType) := by
  rw [← expressible_startScript_iff hsettings hc hids h]
  exact ⟨Script.expressible_of_parse, Script.parse_text_of_expressible⟩

/-- A lamp on a node with a slash, and channels of a type with one. -/
def slashLamp : Synthesis where
  model :=
    { nodes := [{ name := "/home1", components := [⟨"light_a", "org.activehome.Light"⟩] }] }
  settings := { nodeName := "/home1", channelType := "/Sync" }

/-- A switch that is bound to the lamp by an attribute. -/
def boundSwitch : Component where
  typeName := "org.activehome.Switch"
  id := "s1"
  attributes := .ofList [("binding", "o>Light.in"), ("label", "\" \n\\")]

theorem parse_startScript_iff_slashLamp :
    slashLamp.settings.validate = .ok () ∧ boundSwitch.ScriptSafe ∧
      (∀ component ∈ slashLamp.model.components slashLamp.node, IsName component.name) ∧
      ∃ script, slashLamp.startScript boundSwitch = .ok script ∧ script.addedChannels ≠ [] ∧
        (Script.parse script.text = .ok script ↔ FitsAddress slashLamp.node ∧
          (script.addedChannels ≠ [] → Script.IsBare slashLamp.settings.channelType)) ∧
        Script.parse script.text = .ok script := by
  have hsettings : slashLamp.settings.validate = .ok () := by decide
  have hsafe : boundSwitch.ScriptSafe := by decide +kernel
  have hids : ∀ component ∈ slashLamp.model.components slashLamp.node,
      IsName component.name := by decide
  have hscript : slashLamp.startScript boundSwitch = .ok
      [.addComponent ⟨"/home1", "s1"⟩ "org.activehome.Switch",
        .setAttribute ⟨"/home1", "s1"⟩ "label" "\" \n\\",
        .addChannel ⟨"chan_in_/home1_light_a"⟩ "/Sync",
        .bind ⟨⟨"/home1", "light_a"⟩, "in"⟩ ⟨"chan_in_/home1_light_a"⟩,
        .bind ⟨⟨"/home1", "s1"⟩, "o"⟩ ⟨"chan_in_/home1_light_a"⟩] := by decide +kernel
  have hiff := parse_startScript_iff hsettings hsafe hids hscript
  exact ⟨hsettings, hsafe, hids, _, hscript, by decide, hiff,
    hiff.2 ⟨by decide, fun _ => by decide⟩⟩

/-- A node with a colon in its name. -/
def colonNode : Synthesis where
  model := { nodes := [{ name := "home:1" }] }
  settings := { nodeName := "home:1" }

/-- A switch and nothing else. -/
def plainSwitch : Component where
  typeName := "org.activehome.Switch"
  id := "s1"

/-- Settings can pass their check and give scripts that are not read back: the check lets a
colon stand in the name of the node. -/
theorem parse_startScript_ne :
    ¬ ∀ (s : Synthesis) (c : Component) (script : Script), s.settings.validate = .ok () →
      c.ScriptSafe →
      (∀ node ∈ s.model.nodes, ∀ component ∈ node.components, IsName component.name) →
      s.startScript c = .ok script → Script.parse script.text = .ok script := by
  intro hall
  have hids : ∀ node ∈ colonNode.model.nodes, ∀ component ∈ node.components,
      IsName component.name := by decide
  have hscript : colonNode.startScript plainSwitch =
      .ok [.addComponent ⟨"home:1", "s1"⟩ "org.activehome.Switch"] := by decide +kernel
  have hread := hall colonNode plainSwitch _ (by decide) (by decide) hids hscript
  have hop := Script.expressible_of_parse hread _ List.mem_cons_self
  exact absurd hop (by decide)

end Synthesis

end Wiring
