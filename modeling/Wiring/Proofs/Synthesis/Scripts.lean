import Wiring.Proofs.Binding.Safe
import Wiring.Proofs.Model.Apply

/-!
# What synthesized scripts are made of

A start script creates its component and, for its bindings, channels that the model
does not have, each once; the script for deferred bindings creates such channels only;
the other scripts create nothing.  With safe names, lines can express every operation
of each of these scripts.
-/

namespace Wiring

/-- Every operation of a script can be expressed by a line. -/
def Script.Expressible (script : Script) : Prop := ∀ op ∈ script, op.Expressible

instance (script : Script) : Decidable script.Expressible :=
  inferInstanceAs (Decidable (∀ op ∈ script, op.Expressible))

theorem Script.expressible_nil : Script.Expressible [] := by
  intro op hop
  simp at hop

theorem Script.Expressible.append {s t : Script} (hs : s.Expressible) (ht : t.Expressible) :
    Script.Expressible (s ++ t) := by
  intro op hop
  rcases List.mem_append.1 hop with hop | hop
  · exact hs op hop
  · exact ht op hop

theorem Script.Expressible.cons {op : Op} {script : Script} (hop : op.Expressible)
    (hscript : script.Expressible) : Script.Expressible (op :: script) := by
  intro op' hop'
  rcases List.mem_cons.1 hop' with rfl | hop'
  · exact hop
  · exact hscript op' hop'

/-! ## Operations with names -/

theorem Op.expressible_addComponent {path : ComponentPath} {typeName : String}
    (hnode : IsName path.node) (hid : IsName path.id) (htype : Script.IsBare typeName) :
    (Op.addComponent path typeName).Expressible :=
  ⟨hnode.isField, hid.isField, hnode.not_beginsComment, htype⟩

theorem Op.expressible_setAttribute {path : ComponentPath} {key : String} (value : String)
    (hnode : IsName path.node) (hid : IsName path.id) (hkey : IsName key) :
    (Op.setAttribute path key value).Expressible :=
  ⟨hnode.isField, hid.isField, hkey.isWord, fun h => absurd h hnode.not_beginsComment⟩

theorem Op.expressible_remove {path : ComponentPath} (hnode : IsName path.node)
    (hid : IsName path.id) : (Op.remove path).Expressible :=
  ⟨hnode.isField, hid.isField, hnode.not_beginsComment⟩

theorem Op.expressible_bind {port : PortRef} {channel : ChannelId}
    (hnode : IsName port.component.node) (hid : IsName port.component.id)
    (hport : IsName port.port) (hchannel : Script.IsBare channel.name) :
    (Op.bind port channel).Expressible :=
  ⟨hnode.isField, hid.isField, hnode.not_beginsComment, hport.isWord, hchannel⟩

/-! ## Defaults -/

namespace Component

theorem id_addDefault (r : Resolution) (declared : Attribute) :
    (addDefault r declared).component.id = r.component.id := by
  unfold addDefault
  split
  · rfl
  split
  · rfl
  · rfl

theorem scriptSafe_addDefault {r : Resolution} {declared : Attribute}
    (hr : r.component.ScriptSafe) (hname : IsName declared.name) :
    (addDefault r declared).component.ScriptSafe := by
  unfold addDefault
  split
  · exact hr
  split
  · exact hr
  · refine ⟨hr.id, hr.typeName, fun entry hentry => ?_, hr.portBindings⟩
    rcases Table.mem_insertEntry hentry with rfl | hentry
    · exact hname
    · exact hr.attributes entry hentry

theorem id_foldl_addDefault (declared : List Attribute) (r : Resolution) :
    (declared.foldl addDefault r).component.id = r.component.id := by
  induction declared generalizing r with
  | nil => rfl
  | cons a declared ih => rw [List.foldl_cons, ih, id_addDefault]

theorem scriptSafe_foldl_addDefault {declared : List Attribute}
    (hnames : ∀ a ∈ declared, IsName a.name) {r : Resolution}
    (hr : r.component.ScriptSafe) : (declared.foldl addDefault r).component.ScriptSafe := by
  induction declared generalizing r with
  | nil => exact hr
  | cons a declared ih =>
    have ha := hnames a List.mem_cons_self
    exact ih (fun b hb => hnames b (List.mem_cons_of_mem _ hb)) (scriptSafe_addDefault hr ha)

theorem id_resolve (c : Component) (m : Model) : (c.resolve m).component.id = c.id := by
  unfold resolve
  split
  · rfl
  · exact id_foldl_addDefault _ _

/-- The defaults of a type leave a safe request safe. -/
theorem ScriptSafe.resolve {c : Component} {m : Model} (hc : c.ScriptSafe)
    (hpackages : Package.ScriptSafe m.packages) : (c.resolve m).component.ScriptSafe := by
  unfold Component.resolve
  split
  · exact hc
  · rename_i declaration hfind
    have hdeclared := hpackages _ (Model.mem_declarations_of_findType hfind)
    exact scriptSafe_foldl_addDefault hdeclared hc

end Component

/-! ## Connections -/

namespace Synthesis

/-- The names that the settings and the model bring into scripts are safe. -/
structure ScriptSafe (s : Synthesis) : Prop where
  settings : s.settings.ScriptSafe
  model : s.model.ScriptSafe s.node

/-- Where the channel of a destination is there, a connection only binds the source. -/
theorem connect_of_there {s : Synthesis} {source : ComponentPath} {known : List ChannelId}
    {port : String} {d : Destination}
    (hthere : s.model.has (.channel (s.channelFor d)) = true ∨ s.channelFor d ∈ known) :
    s.connect source known port d = [.bind ⟨source, port⟩ (s.channelFor d)] := by
  rw [connect, if_pos (by simpa [Model.has] using hthere)]
  rfl

/-- Otherwise it creates the channel and binds the destination first. -/
theorem connect_of_new {s : Synthesis} {source : ComponentPath} {known : List ChannelId}
    {port : String} {d : Destination}
    (hnew : ¬ (s.model.has (.channel (s.channelFor d)) = true ∨ s.channelFor d ∈ known)) :
    s.connect source known port d =
      [.addChannel (s.channelFor d) s.settings.channelType,
        .bind d.portRef (s.channelFor d), .bind ⟨source, port⟩ (s.channelFor d)] := by
  rw [connect, if_neg (by simpa [Model.has] using hnew)]
  rfl

theorem expressible_connectAll {s : Synthesis} {source : ComponentPath}
    (hsettings : s.settings.ScriptSafe) (hnode : IsName source.node) (hid : IsName source.id)
    {pairs : List (String × Destination)}
    (hpairs : ∀ pair ∈ pairs, IsName pair.1 ∧ pair.2.ScriptSafe) (known : List ChannelId) :
    (s.connectAll source known pairs).Expressible := by
  induction pairs generalizing known with
  | nil => exact Script.expressible_nil
  | cons pair pairs ih =>
    obtain ⟨port, d⟩ := pair
    obtain ⟨hport, hd⟩ := hpairs _ List.mem_cons_self
    have hrest := ih (fun p hp => hpairs p (List.mem_cons_of_mem _ hp))
    have hfield : Script.IsField (s.channelFor d).name :=
      isField_derive hd.port.isField hsettings.nodeName.isField hd.id.isField
    have hchannel : Script.IsBare (s.channelFor d).name :=
      isBare_derive hd.port.isField hsettings.nodeName.isField hd.id.isField
    have hadd : (Op.addChannel (s.channelFor d) s.settings.channelType).Expressible :=
      ⟨hchannel, hfield.noDot, hsettings.channelType⟩
    have hjoin : (Op.bind d.portRef (s.channelFor d)).Expressible :=
      Op.expressible_bind hd.node hd.id hd.port hchannel
    have hbind : (Op.bind ⟨source, port⟩ (s.channelFor d)).Expressible :=
      Op.expressible_bind hnode hid hport hchannel
    rw [connectAll]
    refine Script.Expressible.append ?_ (hrest _)
    rw [connect]
    refine Script.Expressible.append ?_ (Script.expressible_nil.cons hbind)
    split
    · exact Script.expressible_nil
    · exact (Script.expressible_nil.cons hjoin).cons hadd

theorem addedComponents_connectAll (s : Synthesis) (source : ComponentPath)
    (known : List ChannelId) (pairs : List (String × Destination)) :
    (s.connectAll source known pairs).addedComponents = [] := by
  induction pairs generalizing known with
  | nil => rfl
  | cons pair pairs ih =>
    rw [connectAll, Script.addedComponents_append, ih, List.append_nil, connect]
    split <;> rfl

/-- A channel is created by the connection to a destination unless it is known. -/
theorem addedChannels_connect (s : Synthesis) (source : ComponentPath)
    (known : List ChannelId) (port : String) (d : Destination) :
    (s.connect source known port d).addedChannels =
      if (s.model.findHub (s.channelFor d).name).isSome || known.contains (s.channelFor d)
        then [] else [s.channelFor d] := by
  rw [connect]
  split <;> rfl

theorem addedChannels_connectAll (s : Synthesis) (source : ComponentPath)
    (known : List ChannelId) (pairs : List (String × Destination)) :
    (s.connectAll source known pairs).addedChannels.Nodup ∧
      ∀ channel ∈ (s.connectAll source known pairs).addedChannels,
        s.model.findHub channel.name = none ∧ channel ∉ known := by
  induction pairs generalizing known with
  | nil => exact ⟨List.nodup_nil, fun channel hchannel => absurd hchannel List.not_mem_nil⟩
  | cons pair pairs ih =>
    obtain ⟨port, d⟩ := pair
    -- The channel of this destination counts as known for the destinations after it.
    obtain ⟨hnodup, hnew⟩ := ih (known ++ [s.channelFor d])
    have hrest : ∀ channel ∈
        (s.connectAll source (known ++ [s.channelFor d]) pairs).addedChannels,
        s.model.findHub channel.name = none ∧ channel ∉ known := by
      intro channel hchannel
      obtain ⟨hhub, hknown⟩ := hnew channel hchannel
      exact ⟨hhub, fun hmem => hknown (List.mem_append_left _ hmem)⟩
    rw [connectAll, Script.addedChannels_append, addedChannels_connect]
    split
    · exact ⟨hnodup, hrest⟩
    · rename_i hunknown
      simp only [Bool.or_eq_true, not_or, Bool.not_eq_true, Option.isSome_eq_false_iff,
        Option.isNone_iff_eq_none, List.contains_eq_mem, decide_eq_false_iff_not] at hunknown
      rw [List.singleton_append]
      refine ⟨List.nodup_cons.2 ⟨fun hmem => ?_, hnodup⟩, fun channel hchannel => ?_⟩
      · -- No channel is created a second time, since it was known by then.
        have hfresh := (hnew _ hmem).2
        exact hfresh (List.mem_append_right _ List.mem_cons_self)
      · rcases List.mem_cons.1 hchannel with rfl | hchannel
        · exact hunknown
        · exact hrest channel hchannel

/-! ## The scripts of a start -/

theorem bindPorts_eq_ok_iff {s : Synthesis} {source : ComponentPath}
    {bindings : PortBindings} {script : Script} :
    s.bindPorts source bindings = .ok script ↔
      ∃ pairs, readPairs (tokenPairs bindings) = .ok pairs ∧
        script = s.connectAll source [] pairs := by
  rw [bindPorts]
  cases hread : readPairs (tokenPairs bindings) with
  | error failure => simp
  | ok pairs => simp [eq_comm]

theorem startScript_eq_ok_iff {s : Synthesis} {c : Component} {script : Script} :
    s.startScript c = .ok script ↔
      c.validate = .ok () ∧ ∃ bindings pairs, s.effectiveBindings c = .ok bindings ∧
        readPairs (tokenPairs bindings) = .ok pairs ∧
        script = .addComponent (c.path s.node) c.typeName ::
          (c.plainAttributes s.settings.bindingPrefix).map
            (fun entry => .setAttribute (c.path s.node) entry.1 entry.2) ++
          s.connectAll (c.path s.node) [] pairs := by
  unfold startScript
  simp only [bind_eq_ok_iff, bindPorts_eq_ok_iff]
  constructor
  · rintro ⟨⟨⟩, hvalid, bindings, hbindings, connections, ⟨pairs, hread, rfl⟩, hscript⟩
    exact ⟨hvalid, bindings, pairs, hbindings, hread, (Except.ok.inj hscript).symm⟩
  · rintro ⟨hvalid, bindings, pairs, hbindings, hread, rfl⟩
    exact ⟨(), hvalid, bindings, hbindings, _, ⟨pairs, hread, rfl⟩, rfl⟩

theorem bindingScript_eq_ok_iff {s : Synthesis} {c : Component} {keys : List String}
    {script : Script} :
    s.bindingScript c keys = .ok script ↔
      c.validate = .ok () ∧ ∃ bindings pairs,
        PortBindings.fillAll .empty s.model s.node (s.specsUnder c keys) = .ok bindings ∧
        readPairs (tokenPairs bindings) = .ok pairs ∧
        script = s.connectAll (c.path s.node) [] pairs := by
  unfold bindingScript
  simp only [bind_eq_ok_iff, bindPorts_eq_ok_iff]
  constructor
  · rintro ⟨⟨⟩, hvalid, bindings, hbindings, pairs, hread, rfl⟩
    exact ⟨hvalid, bindings, pairs, hbindings, hread, rfl⟩
  · rintro ⟨hvalid, bindings, pairs, hbindings, hread, rfl⟩
    exact ⟨(), hvalid, bindings, hbindings, pairs, hread, rfl⟩

theorem createsNothing_attributes (path : ComponentPath) (entries : List (String × String)) :
    Script.CreatesNothing (entries.map fun entry => .setAttribute path entry.1 entry.2) :=
  Script.createsNothing_map (fun _ => ⟨rfl, rfl⟩) entries

variable {s : Synthesis} {c : Component} {script : Script}

theorem addedComponents_startScript (h : s.startScript c = .ok script) :
    script.addedComponents = [c.path s.node] := by
  obtain ⟨-, bindings, pairs, -, -, rfl⟩ := startScript_eq_ok_iff.1 h
  have hset := createsNothing_attributes (c.path s.node)
    (c.plainAttributes s.settings.bindingPrefix)
  rw [List.cons_append, ← List.singleton_append, Script.addedComponents_append,
    Script.addedComponents_append, hset.components, addedComponents_connectAll]
  rfl

theorem addedChannels_startScript (h : s.startScript c = .ok script) :
    script.addedChannels.Nodup ∧
      ∀ channel ∈ script.addedChannels, s.model.findHub channel.name = none := by
  obtain ⟨-, bindings, pairs, -, -, rfl⟩ := startScript_eq_ok_iff.1 h
  have hset := createsNothing_attributes (c.path s.node)
    (c.plainAttributes s.settings.bindingPrefix)
  obtain ⟨hnodup, hnew⟩ := addedChannels_connectAll s (c.path s.node) [] pairs
  rw [List.cons_append, ← List.singleton_append, Script.addedChannels_append,
    Script.addedChannels_append, hset.channels]
  exact ⟨hnodup, fun channel hchannel => (hnew channel hchannel).1⟩

theorem expressible_startScript (hs : s.ScriptSafe) (hc : c.ScriptSafe)
    (h : s.startScript c = .ok script) : script.Expressible := by
  obtain ⟨-, bindings, pairs, hbindings, hread, rfl⟩ := startScript_eq_ok_iff.1 h
  have hnode := hs.settings.nodeName
  have hsafe := PortBindings.scriptSafe_fillAll hnode hs.model.ids hc.portBindings hbindings
  have hpairs := scriptSafe_readPairs (scriptSafe_tokenPairs hsafe) hread
  have hadd : (Op.addComponent (c.path s.node) c.typeName).Expressible :=
    Op.expressible_addComponent hnode hc.id hc.typeName
  refine Script.Expressible.append (Script.Expressible.cons hadd ?_)
    (expressible_connectAll hs.settings hnode hc.id hpairs [])
  intro op hop
  obtain ⟨entry, hentry, rfl⟩ := List.mem_map.1 hop
  have hkey := hc.attributes entry (List.mem_filter.1 hentry).1
  exact Op.expressible_setAttribute entry.2 hnode hc.id hkey

theorem addedComponents_bindingScript {keys : List String}
    (h : s.bindingScript c keys = .ok script) : script.addedComponents = [] := by
  obtain ⟨-, bindings, pairs, -, -, rfl⟩ := bindingScript_eq_ok_iff.1 h
  exact addedComponents_connectAll s _ _ _

theorem addedChannels_bindingScript {keys : List String}
    (h : s.bindingScript c keys = .ok script) :
    script.addedChannels.Nodup ∧
      ∀ channel ∈ script.addedChannels, s.model.findHub channel.name = none := by
  obtain ⟨-, bindings, pairs, -, -, rfl⟩ := bindingScript_eq_ok_iff.1 h
  obtain ⟨hnodup, hnew⟩ := addedChannels_connectAll s (c.path s.node) [] pairs
  exact ⟨hnodup, fun channel hchannel => (hnew channel hchannel).1⟩

theorem expressible_bindingScript {keys : List String} (hs : s.ScriptSafe)
    (hid : IsName c.id) (h : s.bindingScript c keys = .ok script) :
    script.Expressible := by
  obtain ⟨-, bindings, pairs, hbindings, hread, rfl⟩ := bindingScript_eq_ok_iff.1 h
  have hnode := hs.settings.nodeName
  have hsafe := PortBindings.scriptSafe_fillAll hnode hs.model.ids
    PortBindings.scriptSafe_empty hbindings
  have hpairs := scriptSafe_readPairs (scriptSafe_tokenPairs hsafe) hread
  exact expressible_connectAll hs.settings hnode hid hpairs []

/-! ## Plans -/

/-- A start that has a script found its id free. -/
theorem planStart_eq_script {typeResolved : Bool}
    (h : s.planStart c = .ok (.script script typeResolved)) :
    s.model.findComponent s.node c.id = none ∧
      s.startScript (c.resolve s.model).component = .ok script := by
  unfold planStart at h
  split at h
  · simp at h
  · rename_i hrunning
    dsimp only at h
    split at h
    · simp at h
    · rename_i planned hplanned
      obtain ⟨rfl, -⟩ := StartPlan.script.inj (Except.ok.inj h)
      refine ⟨?_, hplanned⟩
      simpa [isRunning] using hrunning

theorem planDeferred_eq_script (h : s.planDeferred c = .script script) :
    s.bindingScript (c.resolve s.model).component (s.defaultedBindingKeys (c.resolve s.model)) =
      .ok script := by
  unfold planDeferred at h
  dsimp only at h
  split at h
  · simp at h
  split at h
  · simp at h
  · rename_i planned hplanned
    split at h
    · simp at h
    · obtain rfl := DeferredPlan.script.inj h
      exact hplanned

/-! ## The other scripts -/

theorem localPath_eq_ok {id : String} {path : ComponentPath}
    (h : s.localPath id = .ok path) : path = ⟨s.node, id⟩ := by
  unfold localPath at h
  split at h
  · simp at h
  · exact (Except.ok.inj h).symm

theorem removeScript_eq_ok {id : String} (h : s.removeScript id = .ok script) :
    script = [.remove ⟨s.node, id⟩] := by
  obtain ⟨path, hpath, hscript⟩ := bind_eq_ok_iff.1 h
  rw [localPath_eq_ok hpath] at hscript
  exact (Except.ok.inj hscript).symm

theorem updateScript_eq_ok {id key value : String}
    (h : s.updateScript id key value = .ok script) :
    script = [.setAttribute ⟨s.node, id⟩ key value] := by
  obtain ⟨path, hpath, hscript⟩ := bind_eq_ok_iff.1 h
  rw [localPath_eq_ok hpath] at hscript
  split at hscript
  · simp [throw, throwThe, MonadExceptOf.throw, bind, Except.bind] at hscript
  · exact (Except.ok.inj hscript).symm

theorem mem_of_mem_firsts {α : Type} [DecidableEq α] {l seen : List α} {a : α}
    (h : a ∈ firsts seen l) : a ∈ l := by
  induction l generalizing seen with
  | nil => simp [firsts] at h
  | cons b l ih =>
    rw [firsts] at h
    split at h
    · exact List.mem_cons_of_mem _ (ih h)
    · rcases List.mem_cons.1 h with rfl | h
      · exact List.mem_cons_self
      · exact List.mem_cons_of_mem _ (ih h)

theorem createsNothing_removeScript {id : String} (h : s.removeScript id = .ok script) :
    script.CreatesNothing := by
  rw [removeScript_eq_ok h]
  exact ⟨rfl, rfl⟩

theorem expressible_removeScript {id : String} (hs : s.ScriptSafe) (hid : IsName id)
    (h : s.removeScript id = .ok script) : script.Expressible := by
  rw [removeScript_eq_ok h]
  exact Script.expressible_nil.cons (Op.expressible_remove hs.settings.nodeName hid)

theorem createsNothing_updateScript {id key value : String}
    (h : s.updateScript id key value = .ok script) : script.CreatesNothing := by
  rw [updateScript_eq_ok h]
  exact ⟨rfl, rfl⟩

theorem expressible_updateScript {id key value : String} (hs : s.ScriptSafe)
    (hid : IsName id) (hkey : IsName key) (h : s.updateScript id key value = .ok script) :
    script.Expressible := by
  rw [updateScript_eq_ok h]
  exact Script.expressible_nil.cons
    (Op.expressible_setAttribute value hs.settings.nodeName hid hkey)

theorem createsNothing_stopByTypeScript (s : Synthesis) (types : List String) :
    (s.stopByTypeScript types).CreatesNothing := by
  rw [stopByTypeScript]
  exact Script.createsNothing_map (fun _ => ⟨rfl, rfl⟩) _

theorem expressible_stopByTypeScript_of_ids (hnode : IsName s.node)
    (hids : ∀ component ∈ s.model.components s.node, IsName component.name)
    (types : List String) : (s.stopByTypeScript types).Expressible := by
  intro op hop
  obtain ⟨path, hpath, rfl⟩ := List.mem_map.1 hop
  obtain ⟨typeName, -, hrunning⟩ := List.mem_flatMap.1 (mem_of_mem_firsts hpath)
  obtain ⟨hlocal, component, hcomponent, hid⟩ := Model.exists_of_mem_runningOn hrunning
  refine Op.expressible_remove ?_ ?_
  · rw [hlocal]
    exact hnode
  · rw [← hid]
    exact hids component hcomponent

theorem expressible_stopByTypeScript (hs : s.ScriptSafe) (types : List String) :
    (s.stopByTypeScript types).Expressible :=
  expressible_stopByTypeScript_of_ids hs.settings.nodeName hs.model.ids types

end Synthesis

end Wiring
