import Wiring.Proofs.Settings
import Wiring.Proofs.Script.Unbroken
import Wiring.Proofs.Synthesis.Started

/-!
# What the engine reads of a start

Settings are checked for what would break a script line; the names of a requested component
and of its destinations are not.  As long as those have no blanks and no line ends in them,
and the keys of its attributes no quotes, the text of a start script is read back as that
script or not at all, `read_startScript`.  A name with a line end in it can hold lines of its
own, `read_startScript_ne`.
-/

namespace Wiring

open Wiring.Text

/-! ## Checked settings -/

/-- What separates words or lines breaks a line. -/
theorem Settings.breaksLine_of_isSeparator {c : Char} (hc : Script.isSeparator c = true) :
    breaksLine c = true := by
  simp only [Script.isSeparator, Bool.or_eq_true, decide_eq_true_eq] at hc
  rcases hc with ((rfl | rfl) | rfl) | rfl <;> decide

theorem Settings.IsUsable.isUnbroken {name : String} (h : IsUsable name) :
    Script.IsUnbroken name.toList := by
  intro c hc
  cases hseparator : Script.isSeparator c with
  | false => rfl
  | true => exact absurd (breaksLine_of_isSeparator hseparator) (by simp [h.unbroken c hc])

theorem Settings.of_validate {settings : Settings} (h : settings.validate = .ok ()) :
    (Script.IsUnbroken settings.nodeName.toList ∧ '.' ∉ settings.nodeName.toList) ∧
      Script.IsUnbroken settings.channelType.toList := by
  obtain ⟨hnode, htype, -⟩ := validate_eq_ok_iff.1 h
  exact ⟨⟨hnode.isUnbroken, hnode.noDot⟩, htype.isUnbroken⟩

/-! ## Start scripts -/

namespace Synthesis

/-- Nothing that a request brings into a start script, and that is not checked, has a
separator in it, and the keys have no quotes. -/
structure StartsUnbroken (s : Synthesis) (c : Component) : Prop where
  id : Script.IsUnbroken c.id.toList
  typeName : Script.IsUnbroken c.typeName.toList
  keys : ∀ entry ∈ c.plainAttributes s.settings.bindingPrefix,
    Script.IsUnbroken entry.1.toList ∧ '"' ∉ entry.1.toList
  bindings : ∀ bindings, s.effectiveBindings c = .ok bindings →
    bindings.Holds (fun port => Script.IsUnbroken port.toList)
      fun token => Script.IsUnbroken token.toList

variable {s : Synthesis} {c : Component} {script : Script}

theorem isUnbroken_of_isName {name : String} (h : IsName name) :
    Script.IsUnbroken name.toList := by
  intro c hc
  cases hseparator : Script.isSeparator c with
  | false => rfl
  | true =>
    simp only [Script.isSeparator, Bool.or_eq_true, decide_eq_true_eq] at hseparator
    rcases hseparator with ((rfl | rfl) | rfl) | rfl <;> exact absurd hc (h.notMem (by decide))

theorem isUnbroken_text {path : ComponentPath} (hnode : Script.IsUnbroken path.node.toList)
    (hid : Script.IsUnbroken path.id.toList) : Script.IsUnbroken path.text.toList := by
  have hdot : Script.IsUnbroken ['.'] := by decide
  simp only [ComponentPath.text, String.toList_append, Script.isUnbroken_append_iff]
  exact ⟨⟨hnode, hdot⟩, hid⟩

theorem isUnbroken_member {path : ComponentPath} {name : String}
    (hpath : Script.IsUnbroken path.text.toList) (hname : Script.IsUnbroken name.toList) :
    Script.IsUnbroken (path.member name).toList := by
  have hdot : Script.IsUnbroken ['.'] := by decide
  simp only [ComponentPath.member, String.toList_append, Script.isUnbroken_append_iff]
  exact ⟨⟨hpath, hdot⟩, hname⟩

/-- Specifications name their ports themselves, and lead to components of the node.  So with
them nothing gets into the bindings but ids of components of the node. -/
theorem StartsUnbroken.of_names (hnode : Script.IsUnbroken s.node.toList)
    (hid : Script.IsUnbroken c.id.toList) (htype : Script.IsUnbroken c.typeName.toList)
    (hkeys : ∀ entry ∈ c.plainAttributes s.settings.bindingPrefix,
      Script.IsUnbroken entry.1.toList ∧ '"' ∉ entry.1.toList)
    (hbindings : c.portBindings.Holds (fun port => Script.IsUnbroken port.toList)
      fun token => Script.IsUnbroken token.toList)
    (hids : ∀ component ∈ s.model.components s.node,
      Script.IsUnbroken component.name.toList) : s.StartsUnbroken c := by
  refine ⟨hid, htype, hkeys, fun bindings h => ?_⟩
  refine PortBindings.Holds.fillAll (fun spec entries hparse entry hentry => ?_) hbindings h
  obtain ⟨hsource, hdest⟩ := BindingEntry.isName_of_parsePieces hparse entry hentry
  refine ⟨isUnbroken_of_isName hsource, fun token htoken => ?_⟩
  obtain ⟨path, hpath, rfl⟩ := List.mem_map.1 htoken
  obtain ⟨hlocal, component, hcomponent, hname⟩ := Model.exists_of_mem_runningOn hpath
  have hpathId : Script.IsUnbroken path.id.toList := hname ▸ hids component hcomponent
  exact isUnbroken_member (isUnbroken_text (hlocal ▸ hnode) hpathId) (isUnbroken_of_isName hdest)

/-- The channel of a destination has no separators and no dots. -/
theorem isUnbroken_channelFor (hsettings : s.settings.validate = .ok ()) {token : String}
    {d : Destination} (htoken : Script.IsUnbroken token.toList)
    (hparse : Destination.parse token = .ok d) :
    Script.IsUnbroken (s.channelFor d).name.toList ∧ '.' ∉ (s.channelFor d).name.toList := by
  obtain ⟨⟨hnode, hnodeDot⟩, -⟩ := Settings.of_validate hsettings
  obtain ⟨-, ⟨-, hidDot⟩, ⟨-, hportDot⟩⟩ := Destination.isPlain_of_parse hparse
  rw [← Destination.text_of_parse hparse, Destination.text, ComponentPath.toList_member] at htoken
  simp only [Script.isUnbroken_append_iff, Script.isUnbroken_cons_iff] at htoken
  obtain ⟨-, -, hid, -, hport⟩ := htoken
  have hchan : Script.IsUnbroken ChannelId.derivedPrefix.toList := by decide
  have hmark : Script.IsUnbroken ['_'] := by decide
  have hchanDot : '.' ∉ ChannelId.derivedPrefix.toList := by decide
  constructor
  · simp only [channelFor, ChannelId.derive, String.toList_append, Script.isUnbroken_append_iff]
    exact ⟨⟨⟨⟨⟨⟨hchan, hmark⟩, hport⟩, hmark⟩, hnode⟩, hmark⟩, hid⟩
  · simp only [channelFor, ChannelId.derive, String.toList_append, List.mem_append, not_or]
    exact ⟨⟨⟨⟨⟨⟨hchanDot, by decide⟩, hportDot⟩, by decide⟩, hnodeDot⟩, by decide⟩, hidDot⟩

/-- When the id is a field of an address, all that follows the creation is unbroken. -/
theorem isUnbroken_connections (hsettings : s.settings.validate = .ok ())
    (hc : s.StartsUnbroken c) (hid : Script.IsField c.id) {bindings : PortBindings}
    (hbindings : s.effectiveBindings c = .ok bindings) {pairs : List (String × Destination)}
    (hread : readPairs (tokenPairs bindings) = .ok pairs) {op : Op}
    (hop : op ∈ s.connectAll (c.path s.node) [] pairs) : op.IsUnbroken := by
  obtain ⟨⟨hnode, hnodeDot⟩, htype⟩ := Settings.of_validate hsettings
  obtain ⟨⟨port, d⟩, hpair, hcases⟩ := exists_of_mem_connectAll hop
  obtain ⟨token, htoken, hparse⟩ := (mem_readPairs hread).2 port d hpair
  obtain ⟨tokens, hentry, htoken⟩ := mem_tokenPairs_iff.1 htoken
  obtain ⟨hport, htokens⟩ := hc.bindings bindings hbindings _ hentry
  have htoken := htokens token htoken
  obtain ⟨hchannel, hchannelDot⟩ := isUnbroken_channelFor hsettings htoken hparse
  rcases hcases with rfl | rfl | rfl
  · exact ⟨hchannelDot, hchannel, htype⟩
  · obtain ⟨⟨-, hdestNode⟩, ⟨-, hdestId⟩, -⟩ := Destination.isPlain_of_parse hparse
    rw [← Destination.text_of_parse hparse] at htoken
    exact ⟨hdestNode, hdestId, htoken, hchannel⟩
  · have hpath : Script.IsUnbroken (c.path s.node).text.toList := isUnbroken_text hnode hc.id
    exact ⟨hnodeDot, hid.noDot, isUnbroken_member hpath hport, hchannel⟩

theorem isUnbroken_attribute (hsettings : s.settings.validate = .ok ())
    (hc : s.StartsUnbroken c) (hnode : Script.IsField s.node) (hid : Script.IsField c.id)
    {entry : String × String} (hentry : entry ∈ c.plainAttributes s.settings.bindingPrefix) :
    (Op.setAttribute (c.path s.node) entry.1 entry.2).IsUnbroken := by
  obtain ⟨hkey, hquote⟩ := hc.keys entry hentry
  have hpath : Script.IsUnbroken (c.path s.node).text.toList :=
    isUnbroken_text (Settings.of_validate hsettings).1.1 hc.id
  refine ⟨hnode.noDot, hid.noDot, isUnbroken_member hpath hkey, ?_⟩
  -- No word has a quote in it, so the address has none.
  have hnodeQuote : '"' ∉ s.node.toList := hnode.isWord.notMem_of_not_isWordChar (by decide)
  have hidQuote : '"' ∉ c.id.toList := hid.isWord.notMem_of_not_isWordChar (by decide)
  rw [ComponentPath.toList_member]
  simp [Component.path, hnodeQuote, hidQuote, hquote]

/-- The text of a start script is read back as the script or not at all, when nothing in the
request separates words or lines. -/
theorem read_startScript (hsettings : s.settings.validate = .ok ()) (hc : s.StartsUnbroken c)
    (h : s.startScript c = .ok script) :
    Script.parse script.text = .ok script ∨
      ∃ failure, Script.parse script.text = .error failure := by
  obtain ⟨-, bindings, pairs, hbindings, hread, rfl⟩ := startScript_eq_ok_iff.1 h
  cases hparse : Script.parse (Script.text _) with
  | error failure => exact Or.inr ⟨failure, rfl⟩
  | ok read =>
    refine Or.inl (congrArg Except.ok ?_)
    obtain ⟨⟨hnode, hnodeDot⟩, -⟩ := Settings.of_validate hsettings
    -- The creation is read, so the id is a field.
    have hcreation : (Op.addComponent (c.path s.node) c.typeName).IsUnbroken :=
      ⟨hnodeDot, isUnbroken_text hnode hc.id, hc.typeName⟩
    obtain ⟨⟨hnodeField, hidField, -⟩, others, rfl, hothers⟩ :=
      Script.read_first hcreation hparse
    refine congrArg (List.cons _) (Script.eq_of_parseLines_text (fun op hop => ?_) hothers)
    rcases List.mem_append.1 hop with hset | hconnect
    · obtain ⟨entry, hentry, rfl⟩ := List.mem_map.1 hset
      exact isUnbroken_attribute hsettings hc hnodeField hidField hentry
    · exact isUnbroken_connections hsettings hc hidField hbindings hread hconnect

theorem read_startScript_lampSwitch :
    bareLamp.settings.validate = .ok () ∧ bareLamp.StartsUnbroken lampSwitch ∧
      ∃ script, bareLamp.startScript lampSwitch = .ok script ∧
        (Script.parse script.text = .ok script ∨
          ∃ failure, Script.parse script.text = .error failure) := by
  have hsettings : bareLamp.settings.validate = .ok () := by decide
  have hunbroken : bareLamp.StartsUnbroken lampSwitch := by
    refine .of_names (by decide) (by decide) (by decide) (by decide) ?_ (by decide)
    unfold PortBindings.Holds
    decide
  have hscript : bareLamp.startScript lampSwitch = .ok
      [.addComponent ⟨"home1", "s1"⟩ "org.activehome.Switch",
        .setAttribute ⟨"home1", "s1"⟩ "room" "hall",
        .addChannel ⟨"chan_in_home1_light_a"⟩ "AsyncBroadcast",
        .bind ⟨⟨"home1", "light_a"⟩, "in"⟩ ⟨"chan_in_home1_light_a"⟩,
        .bind ⟨⟨"home1", "s1"⟩, "p"⟩ ⟨"chan_in_home1_light_a"⟩] := by decide +kernel
  exact ⟨hsettings, hunbroken, _, hscript, read_startScript hsettings hunbroken hscript⟩

/-- A request whose id ends its line and goes on with a line of its own. -/
def smuggler : Component where
  typeName := "org.activehome.Switch"
  id := "s1 : T\nremove home1.light_a //"

/-- Where names are not checked, the engine can read another script than the one that was
made: here it reads a removal. -/
theorem read_startScript_ne :
    ¬ ∀ (s : Synthesis) (c : Component) (script : Script), s.settings.validate = .ok () →
      s.startScript c = .ok script →
      Script.parse script.text = .ok script ∨
        ∃ failure, Script.parse script.text = .error failure := by
  intro hall
  have hscript : bareLamp.startScript smuggler =
      .ok [.addComponent ⟨"home1", smuggler.id⟩ "org.activehome.Switch"] := by decide +kernel
  have hadd : Script.parseLine "add home1.s1 : T".toList =
      .ok (some (.addComponent ⟨"home1", "s1"⟩ "T")) := by
    refine Script.parseLine_eq_some_iff.2 ⟨?_, by decide⟩
    refine Script.tokens_eq_ok_cons.2 ⟨_, rfl, ?_⟩
    refine Script.tokens_eq_ok_cons.2 ⟨_, rfl, ?_⟩
    refine Script.tokens_eq_ok_cons.2 ⟨_, rfl, ?_⟩
    refine Script.tokens_eq_ok_cons.2 ⟨_, rfl, ?_⟩
    exact Script.tokens_eq_ok_nil.2 rfl
  have hremove : Script.parseLine "remove home1.light_a // : org.activehome.Switch".toList =
      .ok (some (.remove ⟨"home1", "light_a"⟩)) := by
    refine Script.parseLine_eq_some_iff.2 ⟨?_, by decide⟩
    refine Script.tokens_eq_ok_cons.2 ⟨_, rfl, ?_⟩
    refine Script.tokens_eq_ok_cons.2 ⟨_, rfl, ?_⟩
    exact Script.tokens_eq_ok_nil.2 rfl
  have hread : Script.parse
      (Script.text [.addComponent ⟨"home1", smuggler.id⟩ "org.activehome.Switch"]) =
        .ok [.addComponent ⟨"home1", "s1"⟩ "T", .remove ⟨"home1", "light_a"⟩] := by
    change Script.parseLines 1 ["add home1.s1 : T".toList,
      "remove home1.light_a // : org.activehome.Switch".toList] = _
    simp only [Script.parseLines, hadd, hremove]
  rcases hall bareLamp smuggler _ (by decide) hscript with hsame | ⟨failure, herror⟩
  · rw [hread] at hsame
    simp at hsame
  · rw [hread] at herror
    simp at herror

end Synthesis

end Wiring
