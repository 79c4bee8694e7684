import Wiring.Proofs.Binding.Pairs
import Wiring.Proofs.Component.Defaults
import Wiring.Proofs.Model.Running
import Wiring.Proofs.Synthesis.Connections
import Wiring.Proofs.Synthesis.Rearranged

/-!
# Bindings that are deferred

A component whose type is unknown is started without the defaults of the type, and bound
by a second script once the type is known.  The two scripts together make the operations
of the one that would have been made with the type known from the start, in another
order and without the plain defaults, `perm_startScript_append_deferredScript`.

The second script is made against a model that has what the first one created.  The
channels that are there by then are those that are known to the second half of the
connections of the one script.  The new component is there as well, so no entry of the
defaults may refer to its type.
-/

namespace Wiring

/-- Whether an operation assigns an attribute that is one of some keys. -/
def Op.assignsOneOf (keys : List String) : Op → Bool
  | .setAttribute _ key _ => keys.contains key
  | _ => false

/-- No script changes what the types declare. -/
theorem Component.resolve_applyScript (c : Component) (m : Model) (script : Script) :
    c.resolve (m.applyScript script) = c.resolve m := by
  rw [resolve, resolve, Model.findType_congr (Model.packages_applyScript m script)]

namespace Synthesis

/-- The script that starts a component with the defaults of its type. -/
def directScript (s : Synthesis) (c : Component) : Except Failure Script :=
  s.startScript (c.resolve s.model).component

/-- The script that binds a component that is there already, as its type declares. -/
def deferredScript (s : Synthesis) (c : Component) : Except Failure Script :=
  s.bindingScript (c.resolve s.model).component (s.defaultedBindingKeys (c.resolve s.model))

/-- More packages have arrived, behind those that were there. -/
def withPackages (s : Synthesis) (packages : List Package) : Synthesis :=
  { s with model := { s.model with packages := s.model.packages ++ packages } }

/-- The creations of a script have been applied, and nothing else of it. -/
def afterCreations (s : Synthesis) (script : Script) : Synthesis :=
  { s with model := s.model.applyScript (script.filter fun op => op.creates.isSome) }

/-- The binding specifications among the defaults of a type. -/
def defaultedSpecs (s : Synthesis) (c : Component) : List String :=
  s.specsUnder (c.resolve s.model).component (s.defaultedBindingKeys (c.resolve s.model))

/-- No entry among the defaults of a type refers to a type of the same simple name. -/
def Foreign (s : Synthesis) (c : Component) : Prop :=
  ∀ spec ∈ s.defaultedSpecs c, ∀ entries, BindingEntry.parseSpec spec = .ok entries →
    ∀ entry ∈ entries,
      (TypeName.parse c.typeName).sameSimple (TypeName.parse entry.typeRef) = false

/-- Different destinations of bindings have different channels. -/
def KeepsApart (s : Synthesis) (bindings : PortBindings) : Prop :=
  ∀ d ∈ bindings.destinations, ∀ other ∈ bindings.destinations,
    s.channelFor d = s.channelFor other → d = other

instance (s : Synthesis) (bindings : PortBindings) : Decidable (s.KeepsApart bindings) :=
  inferInstanceAs (Decidable (∀ d ∈ bindings.destinations, _))

theorem KeepsApart.unshared {s : Synthesis} {bindings : PortBindings}
    (h : s.KeepsApart bindings) {pairs : List (String × Destination)}
    (hread : readPairs (tokenPairs bindings) = .ok pairs) : s.Unshared pairs := by
  rw [KeepsApart, PortBindings.destinations, destinations_of_readPairs hread] at h
  intro pair hpair other hother
  exact h _ (List.mem_map_of_mem hpair) _ (List.mem_map_of_mem hother)

/-! ## The model after the first script -/

variable {s : Synthesis} {c : Component} {script : Script}

theorem addedChannels_creations (script : Script) :
    Script.addedChannels (script.filter fun op => op.creates.isSome) = script.addedChannels := by
  rw [Script.addedChannels, List.filterMap_filter, Script.addedChannels]
  refine List.filterMap_congr fun op _ => ?_
  cases op <;> rfl

/-- After the creations of a script there are its channels as well. -/
theorem has_channel_afterCreations {channel : ChannelId} :
    (s.afterCreations script).model.has (.channel channel) = true ↔
      s.model.has (.channel channel) = true ∨ channel ∈ script.addedChannels := by
  have hnames : channel.name ∈ script.addedChannels.map (·.name) ↔
      channel ∈ script.addedChannels := by
    rw [List.mem_map]
    constructor
    · rintro ⟨⟨name⟩, hmem, rfl⟩
      exact hmem
    · exact fun hmem => ⟨channel, hmem, rfl⟩
  rw [Model.has_channel_iff, Model.has_channel_iff, afterCreations,
    Model.hubNames_applyScript, addedChannels_creations, List.mem_append, hnames]

theorem resolve_afterCreations (c : Component) (s : Synthesis) (script : Script) :
    c.resolve (s.afterCreations script).model = c.resolve s.model :=
  c.resolve_applyScript s.model _

/-- Once the component of a start was created, entries that do not refer to its type lead
to what they led to before. -/
theorem specPairs_afterCreations {spec : String}
    (htyped : ∀ path created, .addComponent path created ∈ script → created = c.typeName)
    (hforeign : ∀ entries, BindingEntry.parseSpec spec = .ok entries → ∀ entry ∈ entries,
      (TypeName.parse c.typeName).sameSimple (TypeName.parse entry.typeRef) = false) :
    PortBindings.specPairs (s.afterCreations script).model s.node spec =
      PortBindings.specPairs s.model s.node spec := by
  refine PortBindings.specPairs_congr fun entries hparse entry hentry => ?_
  refine Model.runningOn_applyScript (fun op hop => (List.mem_filter.1 hop).2) ?_ s.node
  intro path created hmem
  obtain rfl := htyped path created (List.mem_filter.1 hmem).1
  exact hforeign entries hparse entry hentry

/-! ## The bindings of both scripts -/

variable {packages : List Package} {bindings : PortBindings}

/-- With the type known, a start has the bindings that it has without, and those of the
defaults. -/
theorem exists_effectiveBindings
    (h : (s.withPackages packages).effectiveBindings
      (c.resolve (s.withPackages packages).model).component = .ok bindings) :
    ∃ first, s.effectiveBindings c = .ok first ∧
      (tokenPairs bindings).Perm (tokenPairs first ++
        ((s.withPackages packages).defaultedSpecs c).flatMap
          (PortBindings.specPairs (s.withPackages packages).model s.node)) ∧
      ∀ spec ∈ (s.withPackages packages).defaultedSpecs c, PortBindings.Readable spec := by
  obtain ⟨added, hextends⟩ := c.exists_extends_resolve (s.withPackages packages).model
  have hspecs := hextends.perm_specs (s.withPackages packages)
  -- All specifications can be read, so those of the request alone can be filled in.
  have hreadable : ∀ spec ∈ s.specs c ++ (s.withPackages packages).defaultedSpecs c,
      PortBindings.Readable spec :=
    fun spec hspec => PortBindings.exists_fillAll_iff.1 ⟨bindings, h⟩ spec
      (hspecs.mem_iff.2 hspec)
  have hfilled : ∃ first, s.effectiveBindings c = .ok first :=
    PortBindings.exists_fillAll_iff.2 fun spec hspec =>
      hreadable spec (List.mem_append_left _ hspec)
  obtain ⟨first, hfirst⟩ := hfilled
  refine ⟨first, hfirst, ?_, fun spec hspec => hreadable spec (List.mem_append_right _ hspec)⟩
  have hall := PortBindings.perm_fillAll h
  rw [hextends.portBindings] at hall
  have hsplit := hall.trans ((hspecs.flatMap_right _).append_left _)
  rw [List.flatMap_append, ← List.append_assoc] at hsplit
  -- Packages do not matter for what specifications lead to.
  exact hsplit.trans ((PortBindings.perm_fillAll hfirst).symm.append_right _)

theorem exists_fillAll_empty {specs : List String} {m m' : Model} {node : String}
    (hreadable : ∀ spec ∈ specs, PortBindings.Readable spec)
    (hsame : ∀ spec ∈ specs,
      PortBindings.specPairs m' node spec = PortBindings.specPairs m node spec) :
    ∃ second, PortBindings.fillAll .empty m' node specs = .ok second ∧
      (tokenPairs second).Perm (specs.flatMap (PortBindings.specPairs m node)) := by
  have hfilled : ∃ second, PortBindings.fillAll .empty m' node specs = .ok second :=
    PortBindings.exists_fillAll_iff.2 hreadable
  obtain ⟨second, hsecond⟩ := hfilled
  refine ⟨second, hsecond, (PortBindings.perm_fillAll hsecond).trans ?_⟩
  rw [List.flatMap_congr hsame]
  exact List.Perm.refl _

/-! ## The operations of both scripts -/

/-- The operations that start a component and connect it to destinations. -/
def startWith (s : Synthesis) (c : Component) (pairs : List (String × Destination)) : Script :=
  .addComponent (c.path s.node) c.typeName ::
    (c.plainAttributes s.settings.bindingPrefix).map
      (fun entry => .setAttribute (c.path s.node) entry.1 entry.2) ++
    s.connectAll (c.path s.node) [] pairs

theorem assignsOneOf_of_mem_connectAll {source : ComponentPath} {known : List ChannelId}
    {pairs : List (String × Destination)} {keys : List String} {op : Op}
    (hop : op ∈ s.connectAll source known pairs) : op.assignsOneOf keys = false := by
  induction pairs generalizing known with
  | nil => exact absurd hop List.not_mem_nil
  | cons pair pairs ih =>
    rw [connectAll, List.mem_append] at hop
    rcases hop with hop | hop
    · by_cases hthere : s.model.has (.channel (s.channelFor pair.2)) = true ∨
          s.channelFor pair.2 ∈ known
      · rw [connect_of_there hthere] at hop
        obtain rfl := List.mem_singleton.1 hop
        rfl
      · rw [connect_of_new hthere] at hop
        simp only [List.mem_cons, List.not_mem_nil, or_false] at hop
        obtain rfl | rfl | rfl := hop <;> rfl
    · exact ih hop

/-- Without the plain defaults, a start sets the attributes of the request. -/
theorem perm_filter_startWith {r : Resolution} {added : List (String × String)}
    (hextends : c.Extends r added) (pairs : List (String × Destination)) :
    ((s.startWith r.component pairs).filter fun op => !op.assignsOneOf r.defaulted).Perm
      (s.startWith c pairs) := by
  have hconnections : (s.connectAll (c.path s.node) [] pairs).filter
      (fun op => !op.assignsOneOf r.defaulted) = s.connectAll (c.path s.node) [] pairs := by
    refine List.filter_eq_self.2 fun op hop => ?_
    rw [assignsOneOf_of_mem_connectAll hop]
    rfl
  rw [startWith, startWith, hextends.path, hextends.typeName, List.cons_append,
    List.filter_cons_of_pos (by rfl), List.filter_append, hconnections, List.filter_map]
  exact (((hextends.perm_plainAttributes _).map _).append_right _).cons _

/-- A start creates one component, of the type that was asked for. -/
theorem typeName_of_mem_startWith {path : ComponentPath} {created : String}
    {pairs : List (String × Destination)}
    (hmem : .addComponent path created ∈ s.startWith c pairs) : created = c.typeName := by
  rw [startWith, List.cons_append, List.mem_cons, List.mem_append] at hmem
  obtain hfirst | hset | hconnect := hmem
  · exact (Op.addComponent.inj hfirst).2
  · simp at hset
  · have hadded : path ∈ (s.connectAll (c.path s.node) [] pairs).addedComponents :=
      List.mem_filterMap.2 ⟨_, hconnect, rfl⟩
    rw [addedComponents_connectAll] at hadded
    exact absurd hadded List.not_mem_nil

/-- Packages do not matter for a start. -/
theorem startWith_withPackages (s : Synthesis) (packages : List Package) (c : Component)
    (pairs : List (String × Destination)) :
    (s.withPackages packages).startWith c pairs = s.startWith c pairs := by
  have hsettings : (s.withPackages packages).settings = s.settings := rfl
  rw [startWith, startWith, connectAll_congr hsettings fun _ => Iff.rfl]
  rfl

theorem perm_startWith {pairs others : List (String × Destination)}
    (hperm : pairs.Perm others) (hunshared : s.Unshared pairs) :
    (s.startWith c pairs).Perm (s.startWith c others) :=
  (perm_connectAll hperm hunshared).append_left _

theorem addedChannels_startWith (s : Synthesis) (c : Component)
    (pairs : List (String × Destination)) :
    (s.startWith c pairs).addedChannels =
      (s.connectAll (c.path s.node) [] pairs).addedChannels := by
  have hset := createsNothing_attributes (c.path s.node)
    (c.plainAttributes s.settings.bindingPrefix)
  rw [startWith, List.cons_append, Script.addedChannels_cons, Script.addedChannels_append,
    hset.channels]
  rfl

/-- A start that connects to some destinations, and the connections to others once the
channels of the start are in the model, are the start that connects to all of them. -/
theorem startWith_append (s : Synthesis) (c : Component)
    (pairs others : List (String × Destination)) :
    s.startWith c (pairs ++ others) = s.startWith c pairs ++
      (s.afterCreations (s.startWith c pairs)).connectAll (c.path s.node) [] others := by
  have hsettings : s.settings = (s.afterCreations (s.startWith c pairs)).settings := rfl
  have hrest : s.connectAll (c.path s.node) (pairs.map fun pair => s.channelFor pair.2) others =
      (s.afterCreations (s.startWith c pairs)).connectAll (c.path s.node) [] others := by
    refine connectAll_congr hsettings (fun channel => ?_) others
    rw [has_channel_afterCreations, addedChannels_startWith]
    have hthere := mem_addedChannels_connectAll s (c.path s.node) [] pairs channel
    simpa using hthere.symm
  rw [startWith, connectAll_append, List.nil_append, hrest, ← List.append_assoc]
  rfl

/-- After the first script, the second one is made: it connects to the destinations that
the defaults would have led to before. -/
theorem exists_deferredScript {added : List (String × String)}
    {q : List (String × Destination)} (hextends : c.Extends (c.resolve s.model) added)
    (hvalid : (c.resolve s.model).component.validate = .ok ()) (hforeign : s.Foreign c)
    (hreadable : ∀ spec ∈ s.defaultedSpecs c, PortBindings.Readable spec)
    (hq : readPairs ((s.defaultedSpecs c).flatMap (PortBindings.specPairs s.model s.node)) =
      .ok q)
    (p : List (String × Destination)) :
    ∃ q', q.Perm q' ∧ (s.afterCreations (s.startWith c p)).deferredScript c =
      .ok ((s.afterCreations (s.startWith c p)).connectAll (c.path s.node) [] q') := by
  have hresolve := resolve_afterCreations c s (s.startWith c p)
  have htyped : ∀ path created, .addComponent path created ∈ s.startWith c p →
      created = c.typeName := fun path created hmem => typeName_of_mem_startWith hmem
  obtain ⟨bindings, hbindings, hperm⟩ := exists_fillAll_empty hreadable fun spec hspec =>
    specPairs_afterCreations htyped (hforeign spec hspec)
  obtain ⟨q', hq', hsame⟩ := exists_readPairs_of_perm hperm.symm hq
  refine ⟨q', hsame, ?_⟩
  rw [deferredScript, hresolve]
  refine bindingScript_eq_ok_iff.2 ⟨hvalid, bindings, q', hbindings, hq', ?_⟩
  rw [hextends.path]
  rfl

/-- The two scripts of a start whose type is unknown at first, and the one script of a
start whose type is known: both make the same operations apart from the plain defaults. -/
theorem perm_startScript_append_deferredScript
    (hdirect : (s.withPackages packages).directScript c = .ok script)
    (hforeign : (s.withPackages packages).Foreign c)
    (hapart : ∀ bindings, (s.withPackages packages).effectiveBindings
      (c.resolve (s.withPackages packages).model).component = .ok bindings →
        s.KeepsApart bindings) :
    ∃ first second, s.startScript c = .ok first ∧
      ((s.withPackages packages).afterCreations first).deferredScript c = .ok second ∧
      (first ++ second).Perm (script.filter fun op =>
        !op.assignsOneOf (c.resolve (s.withPackages packages).model).defaulted) := by
  obtain ⟨added, hextends⟩ := c.exists_extends_resolve (s.withPackages packages).model
  obtain ⟨hvalid, bindings, pairs, hbindings, hread, hscript⟩ := startScript_eq_ok_iff.1 hdirect
  have hunshared := (hapart bindings hbindings).unshared hread
  -- The destinations of the one script are those of the first and those of the second.
  obtain ⟨b, hb, hperm, hreadable⟩ := exists_effectiveBindings hbindings
  obtain ⟨others, hothers, hpairs⟩ := exists_readPairs_of_perm hperm hread
  obtain ⟨p, q, hp, hq, rfl⟩ := readPairs_append_eq_ok_iff.1 hothers
  have hfirst : s.startScript c = .ok (s.startWith c p) :=
    startScript_eq_ok_iff.2 ⟨hextends.validate.symm.trans hvalid, b, p, hb, hp, rfl⟩
  obtain ⟨q', hsame, hsecond⟩ := exists_deferredScript hextends hvalid hforeign hreadable hq p
  rw [startWith_withPackages] at hsecond
  refine ⟨_, _, hfirst, hsecond, ?_⟩
  -- Both scripts connect to the same destinations in another order.
  have hjoined := startWith_append (s.withPackages packages) c p q'
  rw [startWith_withPackages, startWith_withPackages] at hjoined
  have horder := perm_startWith (c := c) (hpairs.trans (hsame.append_left p)) hunshared
  rw [← startWith_withPackages s packages] at horder
  rw [← hjoined, hscript]
  exact horder.symm.trans (perm_filter_startWith hextends pairs).symm

/-- A lamp that runs on a node where no types are known. -/
def bareLamp : Synthesis where
  model := { nodes := [⟨"home1", [⟨"light_a", "org.activehome.Light"⟩]⟩] }
  settings := .forNode "home1"

/-- The package of a switch type that leads to all lamps by default. -/
def switchPackage : Package where
  name := "org"
  packages := [
    { name := "activehome"
      types := [
        { name := "Switch"
          dictionary := [⟨"level", some "1"⟩, ⟨"binding_out", some "o>Light.in"⟩] }] }]

/-- A switch that is also to be connected to the lamp by another port. -/
def lampSwitch : Component where
  typeName := "org.activehome.Switch"
  id := "s1"
  attributes := .ofList [("room", "hall")]
  portBindings := .ofList [("p", ["home1.light_a.in"])]

/-- The script that starts the switch when its type is known. -/
def lampSwitchScript : Script :=
  [.addComponent ⟨"home1", "s1"⟩ "org.activehome.Switch",
    .setAttribute ⟨"home1", "s1"⟩ "level" "1",
    .setAttribute ⟨"home1", "s1"⟩ "room" "hall",
    .addChannel ⟨"chan_in_home1_light_a"⟩ "AsyncBroadcast",
    .bind ⟨⟨"home1", "light_a"⟩, "in"⟩ ⟨"chan_in_home1_light_a"⟩,
    .bind ⟨⟨"home1", "s1"⟩, "o"⟩ ⟨"chan_in_home1_light_a"⟩,
    .bind ⟨⟨"home1", "s1"⟩, "p"⟩ ⟨"chan_in_home1_light_a"⟩]

theorem perm_startScript_append_deferredScript_lampSwitch :
    bareLamp.model.findType lampSwitch.typeName = none ∧
      (bareLamp.withPackages [switchPackage]).directScript lampSwitch = .ok lampSwitchScript ∧
      ∃ first second, bareLamp.startScript lampSwitch = .ok first ∧
        ((bareLamp.withPackages [switchPackage]).afterCreations first).deferredScript
          lampSwitch = .ok second ∧
        (first ++ second).Perm (lampSwitchScript.filter fun op =>
          !op.assignsOneOf ["level", "binding_out"]) := by
  have hdirect : (bareLamp.withPackages [switchPackage]).directScript lampSwitch =
      .ok lampSwitchScript := by decide +kernel
  have hspecs : (bareLamp.withPackages [switchPackage]).defaultedSpecs lampSwitch =
      ["o>Light.in"] := by decide +kernel
  have hparse : BindingEntry.parseSpec "o>Light.in" = .ok [⟨"o", "Light", "in"⟩] := by
    decide +kernel
  have hforeign : (bareLamp.withPackages [switchPackage]).Foreign lampSwitch := by
    intro spec hspec entries hentries entry hentry
    rw [hspecs] at hspec
    obtain rfl := List.mem_singleton.1 hspec
    obtain rfl := Except.ok.inj (hparse.symm.trans hentries)
    obtain rfl := List.mem_singleton.1 hentry
    decide +kernel
  have hbindings : (bareLamp.withPackages [switchPackage]).effectiveBindings
      (lampSwitch.resolve (bareLamp.withPackages [switchPackage]).model).component =
        .ok (.ofList [("p", ["home1.light_a.in"]), ("o", ["home1.light_a.in"])]) := by
    decide +kernel
  have hdefaulted : (lampSwitch.resolve
      (bareLamp.withPackages [switchPackage]).model).defaulted = ["level", "binding_out"] := by
    decide +kernel
  rw [← hdefaulted]
  refine ⟨by decide +kernel, hdirect, ?_⟩
  refine perm_startScript_append_deferredScript hdirect hforeign fun bindings h => ?_
  obtain rfl := Except.ok.inj (h.symm.trans hbindings)
  decide +kernel

end Synthesis

end Wiring
