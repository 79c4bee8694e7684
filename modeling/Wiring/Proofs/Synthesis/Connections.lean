import Wiring.Proofs.Synthesis.Scripts

/-!
# Connected destinations

A start binds the port of the component to the channel of every destination.  The
destination itself is bound only where its channel is created, so of the destinations
with one channel the first is bound and the others are not, ports of the component itself
apart: `binds_startScript`.  A channel id does not say everything about its destination.
Destinations on different nodes share one, and so do destinations whose names join to the
same text.  All destinations of the bindings are the first with their channels exactly
when no two of them share one, `forall_leads_iff`.
-/

namespace Wiring

/-- The destinations that bindings name, in the order in which they are connected. -/
def PortBindings.destinations (bindings : PortBindings) : List Destination :=
  (Synthesis.tokenPairs bindings).filterMap fun pair => (Destination.parse pair.2).toOption

theorem Destination.portRef_inj {d d' : Destination} :
    d.portRef = d'.portRef ↔ d = d' := by
  cases d
  cases d'
  simp [portRef]

namespace Synthesis

/-- Among the destinations of bindings, a destination is the first with its channel. -/
def Leads (s : Synthesis) (bindings : PortBindings) (d : Destination) : Prop :=
  bindings.destinations.find? (fun other => s.channelFor other = s.channelFor d) = some d

instance (s : Synthesis) (bindings : PortBindings) (d : Destination) :
    Decidable (s.Leads bindings d) :=
  inferInstanceAs (Decidable (_ = _))

/-- A destination is a port of the started component itself, and the bindings of this very
port lead to its channel. -/
def Loops (s : Synthesis) (c : Component) (bindings : PortBindings) (d : Destination) : Prop :=
  d.component = c.path s.node ∧
    ∃ tokens, (d.port, tokens) ∈ bindings.entries ∧ ∃ token ∈ tokens,
      ∃ other, Destination.parse token = .ok other ∧ s.channelFor other = s.channelFor d

/-- When all tokens can be read, the pairs hold the destinations of the bindings. -/
theorem destinations_of_readPairs {tokens : List (String × String)}
    {pairs : List (String × Destination)} (h : readPairs tokens = .ok pairs) :
    tokens.filterMap (fun pair => (Destination.parse pair.2).toOption) = pairs.map (·.2) := by
  induction tokens generalizing pairs with
  | nil =>
    obtain rfl : [] = pairs := by simpa [readPairs] using h
    rfl
  | cons first tokens ih =>
    obtain ⟨d, others, hparse, hothers, rfl⟩ := readPairs_cons_eq_ok_iff.1 h
    rw [List.filterMap_cons, hparse, List.map_cons, ← ih hothers]
    rfl

/-! ## One connection -/

variable {s : Synthesis} {source : ComponentPath} {ref : PortRef} {channel : ChannelId}

theorem bind_mem_connect_iff {known : List ChannelId} {port : String} {d : Destination} :
    .bind ref channel ∈ s.connect source known port d ↔
      s.channelFor d = channel ∧ (ref = ⟨source, port⟩ ∨
        s.model.findHub channel.name = none ∧ channel ∉ known ∧ ref = d.portRef) := by
  by_cases hthere : s.model.has (.channel (s.channelFor d)) = true ∨ s.channelFor d ∈ known
  · have hbound : ¬ (s.model.findHub (s.channelFor d).name = none ∧ s.channelFor d ∉ known) := by
      rintro ⟨hhub, hknown⟩
      simp [Model.has, hhub, hknown] at hthere
    -- Only the source is bound.
    rw [connect_of_there hthere]
    constructor
    · intro hmem
      obtain ⟨rfl, rfl⟩ := Op.bind.inj (List.mem_singleton.1 hmem)
      exact ⟨rfl, Or.inl rfl⟩
    · rintro ⟨rfl, rfl | ⟨hhub, hknown, -⟩⟩
      · exact List.mem_singleton.2 rfl
      · exact absurd ⟨hhub, hknown⟩ hbound
  · obtain ⟨hhub, hknown⟩ := not_or.1 hthere
    rw [Model.has, Option.not_isSome_iff_eq_none] at hhub
    -- The creation comes first, then the binding of the destination and that of the source.
    rw [connect_of_new hthere]
    constructor
    · intro hmem
      simp only [List.mem_cons, Op.bind.injEq, reduceCtorEq, false_or, List.not_mem_nil,
        or_false] at hmem
      obtain ⟨rfl, rfl⟩ | ⟨rfl, rfl⟩ := hmem
      · exact ⟨rfl, Or.inr ⟨hhub, hknown, rfl⟩⟩
      · exact ⟨rfl, Or.inl rfl⟩
    · rintro ⟨rfl, rfl | ⟨-, -, rfl⟩⟩
      · simp
      · simp

/-! ## All connections -/

/-- The bindings that connecting makes: the source is bound for every pair, and a
destination is bound when it is the first with a channel that is not there. -/
theorem bind_mem_connectAll_iff {known : List ChannelId}
    {pairs : List (String × Destination)} :
    .bind ref channel ∈ s.connectAll source known pairs ↔
      (∃ pair ∈ pairs, s.channelFor pair.2 = channel ∧ ref = ⟨source, pair.1⟩) ∨
        s.model.findHub channel.name = none ∧ channel ∉ known ∧
          ∃ d, (pairs.map (·.2)).find? (fun d => s.channelFor d = channel) = some d ∧
            ref = d.portRef := by
  induction pairs generalizing known with
  | nil => simp [connectAll]
  | cons pair pairs ih =>
    obtain ⟨port, d⟩ := pair
    rw [connectAll, List.mem_append, bind_mem_connect_iff, ih, List.exists_mem_cons_iff,
      List.map_cons]
    by_cases hchannel : s.channelFor d = channel
    · subst hchannel
      -- From here on the channel is known, so no later destination is bound to it.
      have hknown : ¬ s.channelFor d ∉ known ++ [s.channelFor d] := by simp
      rw [List.find?_cons_of_pos (by simp)]
      simp only [hknown, true_and, false_and, and_false, or_false, Option.some.injEq,
        exists_eq_left', or_assoc]
      exact or_congr_right or_comm
    · have hknown : channel ∈ known ++ [s.channelFor d] ↔ channel ∈ known := by
        simp [Ne.symm hchannel]
      rw [List.find?_cons_of_neg (by simpa using hchannel)]
      simp only [hchannel, hknown, false_and, false_or]

/-! ## Start scripts -/

variable {c : Component} {script : Script}

/-- The bindings of a start script are those of its connections. -/
theorem bind_mem_startScript_iff {pairs : List (String × Destination)} :
    .bind ref channel ∈ .addComponent (c.path s.node) c.typeName ::
        (c.plainAttributes s.settings.bindingPrefix).map
          (fun entry => .setAttribute (c.path s.node) entry.1 entry.2) ++
        s.connectAll source [] pairs ↔
      .bind ref channel ∈ s.connectAll source [] pairs := by
  simp

/-- A destination whose channel no other destination has is the first with it. -/
theorem Leads.of_unshared {bindings : PortBindings} {d : Destination}
    (hd : d ∈ bindings.destinations)
    (hunshared : ∀ other ∈ bindings.destinations,
      s.channelFor other = s.channelFor d → other = d) : s.Leads bindings d := by
  rw [Leads]
  cases hfind : bindings.destinations.find? fun other => s.channelFor other = s.channelFor d with
  | none =>
    have hnone := List.find?_eq_none.1 hfind d hd
    simp at hnone
  | some other =>
    have hmem := List.mem_of_find?_eq_some hfind
    have hchannel : s.channelFor other = s.channelFor d := by simpa using List.find?_some hfind
    rw [hunshared other hmem hchannel]

/-- All destinations of bindings lead exactly when different ones have different channels. -/
theorem forall_leads_iff {bindings : PortBindings} :
    (∀ d ∈ bindings.destinations, s.Leads bindings d) ↔
      ∀ d ∈ bindings.destinations, ∀ other ∈ bindings.destinations,
        s.channelFor other = s.channelFor d → other = d := by
  constructor
  · intro hlead d hd other hother hchannel
    have hfirst : s.Leads bindings d := hlead d hd
    have hfirst' : s.Leads bindings other := hlead other hother
    rw [Leads, hchannel] at hfirst'
    exact Option.some.inj (hfirst'.symm.trans hfirst)
  · intro hunshared d hd
    exact Leads.of_unshared hd (hunshared d hd)

theorem loops_iff {bindings : PortBindings} {pairs : List (String × Destination)}
    (hread : readPairs (tokenPairs bindings) = .ok pairs) {d : Destination} :
    s.Loops c bindings d ↔
      ∃ pair ∈ pairs, s.channelFor pair.2 = s.channelFor d ∧
        d.portRef = ⟨c.path s.node, pair.1⟩ := by
  obtain ⟨hread, hread'⟩ := mem_readPairs hread
  constructor
  · rintro ⟨hself, tokens, hentry, token, htoken, other, hparse, hchannel⟩
    have hmem := mem_tokenPairs_iff.2 ⟨tokens, hentry, htoken⟩
    obtain ⟨other', hparse', hpair⟩ := hread _ _ hmem
    obtain rfl : other = other' := Except.ok.inj (hparse.symm.trans hparse')
    exact ⟨(d.port, other), hpair, hchannel, by rw [Destination.portRef, hself]⟩
  · rintro ⟨⟨port, other⟩, hpair, hchannel, href⟩
    obtain ⟨hself, rfl⟩ := PortRef.mk.inj href
    obtain ⟨token, hmem, hparse⟩ := hread' _ _ hpair
    obtain ⟨tokens, hentry, htoken⟩ := mem_tokenPairs_iff.1 hmem
    exact ⟨hself, tokens, hentry, token, htoken, other, hparse, hchannel⟩

/-- A start script binds the port to the channel of each destination.  It binds the
destination itself when this is the first with a channel that the model does not have, and
otherwise only when the two bindings are the same. -/
theorem binds_startScript (h : s.startScript c = .ok script) :
    ∃ bindings, s.effectiveBindings c = .ok bindings ∧
      ∀ port tokens, (port, tokens) ∈ bindings.entries → ∀ token ∈ tokens,
        ∃ d, Destination.parse token = .ok d ∧
          .bind ⟨c.path s.node, port⟩ (s.channelFor d) ∈ script ∧
          (.bind d.portRef (s.channelFor d) ∈ script ↔
            s.model.findHub (s.channelFor d).name = none ∧ s.Leads bindings d ∨
              s.Loops c bindings d) := by
  obtain ⟨-, bindings, pairs, hbindings, hread, rfl⟩ := startScript_eq_ok_iff.1 h
  refine ⟨bindings, hbindings, fun port tokens hentry token htoken => ?_⟩
  have hmem : (port, token) ∈ tokenPairs bindings :=
    mem_tokenPairs_iff.2 ⟨tokens, hentry, htoken⟩
  obtain ⟨d, hparse, hpair⟩ := (mem_readPairs hread).1 port token hmem
  refine ⟨d, hparse, ?_, ?_⟩
  · apply bind_mem_startScript_iff.2
    exact bind_mem_connectAll_iff.2 (Or.inl ⟨(port, d), hpair, rfl, rfl⟩)
  · -- The pairs hold the destinations of the bindings in their order.
    have hleads : s.Leads bindings d ↔ ∃ first,
        (pairs.map (·.2)).find? (fun other => s.channelFor other = s.channelFor d) = some first ∧
          d.portRef = first.portRef := by
      simp [Leads, PortBindings.destinations, destinations_of_readPairs hread,
        Destination.portRef_inj]
    have hnew : s.channelFor d ∉ ([] : List ChannelId) := List.not_mem_nil
    rw [bind_mem_startScript_iff, bind_mem_connectAll_iff, loops_iff hread, hleads, or_comm,
      and_iff_right hnew]

/-- Two nodes, on each of them a lamp of the same id. -/
def twoLamps : Synthesis where
  model :=
    { nodes := [⟨"home1", [⟨"light_a", "org.activehome.Light"⟩]⟩,
        ⟨"home2", [⟨"light_a", "org.activehome.Light"⟩]⟩] }
  settings := .forNode "home1"

/-- A switch that is to be connected to both lamps. -/
def bothSwitch : Component where
  typeName := "org.activehome.Switch"
  id := "s1"
  portBindings := .ofList [("o", ["home1.light_a.in", "home2.light_a.in"])]

/-- The script that starts the switch. -/
def bothScript : Script :=
  [.addComponent ⟨"home1", "s1"⟩ "org.activehome.Switch",
    .addChannel ⟨"chan_in_home1_light_a"⟩ "AsyncBroadcast",
    .bind ⟨⟨"home1", "light_a"⟩, "in"⟩ ⟨"chan_in_home1_light_a"⟩,
    .bind ⟨⟨"home1", "s1"⟩, "o"⟩ ⟨"chan_in_home1_light_a"⟩,
    .bind ⟨⟨"home1", "s1"⟩, "o"⟩ ⟨"chan_in_home1_light_a"⟩]

theorem binds_bothScript :
    twoLamps.startScript bothSwitch = .ok bothScript ∧
      ∃ bindings, twoLamps.effectiveBindings bothSwitch = .ok bindings ∧
        ∃ d, Destination.parse "home1.light_a.in" = .ok d ∧
          twoLamps.Leads bindings d ∧
          .bind d.portRef (twoLamps.channelFor d) ∈ bothScript ∧
          .bind ⟨bothSwitch.path twoLamps.node, "o"⟩ (twoLamps.channelFor d) ∈ bothScript := by
  have hscript : twoLamps.startScript bothSwitch = .ok bothScript := by decide +kernel
  have hsame : twoLamps.effectiveBindings bothSwitch = .ok bothSwitch.portBindings := by
    decide +kernel
  have hlamp : Destination.parse "home1.light_a.in" = .ok ⟨⟨"home1", "light_a"⟩, "in"⟩ := by
    decide +kernel
  have hleads : twoLamps.Leads bothSwitch.portBindings ⟨⟨"home1", "light_a"⟩, "in"⟩ := by
    decide +kernel
  obtain ⟨bindings, hbindings, hbinds⟩ := binds_startScript hscript
  obtain rfl := Except.ok.inj (hbindings.symm.trans hsame)
  obtain ⟨d, hparse, hsource, hdestination⟩ := hbinds "o"
    ["home1.light_a.in", "home2.light_a.in"] (by decide +kernel) "home1.light_a.in" (by simp)
  obtain rfl := Except.ok.inj (hparse.symm.trans hlamp)
  refine ⟨hscript, _, hbindings, _, hparse, hleads, ?_, hsource⟩
  exact hdestination.2 (Or.inl ⟨by decide +kernel, hleads⟩)

/-- The second lamp has the channel of the first one, which is created before it, and is
not bound to it. -/
theorem bind_notMem_bothScript :
    twoLamps.startScript bothSwitch = .ok bothScript ∧
      twoLamps.effectiveBindings bothSwitch = .ok bothSwitch.portBindings ∧
      ("o", ["home1.light_a.in", "home2.light_a.in"]) ∈ bothSwitch.portBindings.entries ∧
      Destination.parse "home2.light_a.in" = .ok ⟨⟨"home2", "light_a"⟩, "in"⟩ ∧
      twoLamps.model.findHub (twoLamps.channelFor ⟨⟨"home2", "light_a"⟩, "in"⟩).name = none ∧
      .bind ⟨⟨"home2", "light_a"⟩, "in"⟩ (twoLamps.channelFor ⟨⟨"home2", "light_a"⟩, "in"⟩) ∉
        bothScript :=
  ⟨by decide +kernel, by decide +kernel, by decide +kernel, by decide +kernel,
    by decide +kernel, by decide +kernel⟩

end Synthesis

end Wiring
