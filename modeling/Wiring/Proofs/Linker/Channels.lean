import Wiring.Proofs.Linker.Ordered
import Wiring.Proofs.Linker.Safe

/-!
# Channels that two starts share

Whether a channel exists is looked up when a script is made, and the script is applied
later.  Turns are taken on component ids, so starts of different ids may both find the
channel of one destination missing: their scripts clash, and once both are applied two
channels have one name, `hubNames_act_act`.

A clash is the only way to that: as long as no two open scripts create one channel,
whatever an open script creates is still missing when it is applied, `Fresh.move`.
-/

namespace Wiring.Linker

/-- Two accepted scripts of different tasks, neither acted on yet, create one channel. -/
def Clash {σ : Type} (l : Linker σ) : Prop :=
  ∃ h ∈ l.held, ∃ h' ∈ l.held, h.task ≠ h'.task ∧ h.IsOpen ∧ h'.IsOpen ∧
    ∃ channel ∈ (Script.ofText h.text).addedChannels,
      channel ∈ (Script.ofText h'.text).addedChannels

/-! ## After a clash -/

theorem nextAct?_of_mem {σ : Type} {l : Linker σ} (hl : l.Ordered) {h : Held}
    (hheld : h ∈ l.held) (hacted : h.acted = false) : l.nextAct? h.task = some h := by
  cases hnext : l.nextAct? h.task with
  | none =>
    have hnone := List.find?_eq_none.1 hnext h hheld
    simp [hacted] at hnone
  | some h' =>
    obtain ⟨hheld', htask, -⟩ := nextAct?_eq_some hnext
    rw [List.inj_on_of_nodup_map hl.distinct hheld' hheld htask]

theorem hubNames_act {l : Linker Plant} (hl : l.Ordered) {h : Held} (hheld : h ∈ l.held)
    (hopen : h.IsOpen) :
    (l.act Plant.engine h.task).engine.model.hubNames =
      l.engine.model.hubNames ++ (Script.ofText h.text).addedChannels.map (·.name) := by
  rw [act_of_some (nextAct?_of_mem hl hheld hopen.2), hopen.1]
  exact Plant.hubNames_act_accept l.engine h.text

/-- Acting on the open scripts of two tasks adds the channels of both. -/
theorem hubNames_act_act {l : Linker Plant} (hl : l.Ordered) {h h' : Held}
    (hheld : h ∈ l.held) (hheld' : h' ∈ l.held) (hne : h.task ≠ h'.task) (hopen : h.IsOpen)
    (hopen' : h'.IsOpen) :
    (l.play Plant.engine [.act h.task, .act h'.task]).engine.model.hubNames =
      l.engine.model.hubNames ++ (Script.ofText h.text).addedChannels.map (·.name) ++
        (Script.ofText h'.text).addedChannels.map (·.name) := by
  have hsecond : h' ∈ (l.act Plant.engine h.task).held := by
    rw [act_of_some (nextAct?_of_mem hl hheld hopen.2)]
    refine List.mem_map.2 ⟨h', hheld', ?_⟩
    rw [Held.mark, if_neg (Ne.symm hne)]
  have hafter := hubNames_act (hl.act Plant.engine h.task) hsecond hopen'
  rw [hubNames_act hl hheld hopen] at hafter
  exact hafter

theorem not_nodup_of_shared {names : List String} {channels channels' : List ChannelId}
    {channel : ChannelId} (hmem : channel ∈ channels) (hmem' : channel ∈ channels') :
    ¬ (names ++ channels.map (·.name) ++ channels'.map (·.name)).Nodup := by
  intro hnodup
  have hapart := (List.nodup_append.1 hnodup).2.2
  refine hapart channel.name ?_ channel.name (List.mem_map_of_mem hmem') rfl
  exact List.mem_append_right _ (List.mem_map_of_mem hmem)

/-- From a clash the engine comes to a model with two channels of one name. -/
theorem exists_play_of_clash {l : Linker Plant} (hl : l.Ordered) (hclash : l.Clash) :
    ∃ moves, ¬ (l.play Plant.engine moves).engine.model.hubNames.Nodup := by
  obtain ⟨h, hheld, h', hheld', hne, hopen, hopen', channel, hmem, hmem'⟩ := hclash
  refine ⟨[.act h.task, .act h'.task], ?_⟩
  rw [hubNames_act_act hl hheld hheld' hne hopen hopen']
  exact not_nodup_of_shared hmem hmem'

/-! ## Without a clash -/

/-- The names of the channels are distinct, and the channels that open scripts create
are not in the model; only starts create channels. -/
structure Fresh (l : Linker Plant) : Prop where
  ordered : l.Ordered
  safe : l.Safe
  nodup : l.engine.model.hubNames.Nodup
  pending : ∀ h ∈ l.held, h.IsOpen →
    ((Script.ofText h.text).addedChannels.map (·.name)).Nodup ∧
      ∀ channel ∈ (Script.ofText h.text).addedChannels,
        channel.name ∉ l.engine.model.hubNames
  starts : ∀ h ∈ l.held, h.IsOpen → ∀ channel ∈ (Script.ofText h.text).addedChannels,
    ∃ c, l.requests[h.task]? = some (.start c)

namespace Fresh

variable {l : Linker Plant}

theorem opening {settings : Settings} {plant : Plant} {requests : List Request}
    (hsafe : (opening settings plant requests).Safe) (hhubs : plant.model.hubNames.Nodup) :
    (Linker.opening settings plant requests).Fresh where
  ordered := ordered_opening settings plant requests
  safe := hsafe
  nodup := hhubs
  pending := fun _ hheld => absurd hheld List.not_mem_nil
  starts := fun _ hheld => absurd hheld List.not_mem_nil

theorem withNotices (hl : l.Fresh) (events : List (Event Nat))
    (notices : List (Nat × Notice)) : ({ l with events, notices } : Linker Plant).Fresh :=
  ⟨hl.ordered.withNotices events notices, hl.safe.withNotices events notices, hl.nodup,
    hl.pending, hl.starts⟩

theorem submit (hl : l.Fresh) {task : Nat} {t : Task} {s : Submission}
    (ht : l.tasks[task]? = some t) (hwaits : ¬ t.phase.Waits)
    (hsubmits : Submits Plant.engine l task t s) :
    (l.submit Plant.engine task s).Fresh := by
  have hfits := hl.safe.fits_of_submits ht hsubmits
  have hmodel : (l.submit Plant.engine task s).engine.model = l.engine.model :=
    Plant.model_receive l.engine s.text
  have hrequests : (l.submit Plant.engine task s).requests = l.requests :=
    l.requests_setPhase task _
  refine ⟨hl.ordered.submit ht hwaits hsubmits, hl.safe.submit ht hsubmits, ?_, ?_, ?_⟩
  · rw [hmodel]
    exact hl.nodup
  · rw [hmodel]
    intro h hheld hopen
    rcases List.mem_append.1 hheld with hold | hnew
    · exact hl.pending h hold hopen
    · obtain rfl := List.mem_singleton.1 hnew
      exact ⟨hfits.channels, hfits.fresh⟩
  · rw [hrequests]
    intro h hheld hopen channel hchannel
    rcases List.mem_append.1 hheld with hold | hnew
    · exact hl.starts h hold hopen channel hchannel
    · obtain rfl := List.mem_singleton.1 hnew
      obtain ⟨c, hc⟩ := hfits.starts channel hchannel
      exact ⟨c, hc ▸ getElem?_requests ht⟩

theorem step (hl : l.Fresh) {task : Nat} {next : Linker Plant}
    (h : l.step Plant.engine task = some next) : next.Fresh := by
  have hordered := hl.ordered.step h
  have hsafe := hl.safe.step h
  obtain ⟨t, ht, hsteps⟩ := steps_of_step h
  have hwaits := hsteps.not_waits
  have hstarts := hl.starts
  rw [← hsteps.frame.2] at hstarts
  cases hsteps with
  | finish events notices result => exact ⟨hordered, hsafe, hl.nodup, hl.pending, hstarts⟩
  | join notices hjoins => exact ⟨hordered, hsafe, hl.nodup, hl.pending, hstarts⟩
  | submit events notices hsubmits =>
    exact (hl.withNotices events notices).submit ht hwaits
      (hsubmits.withNotices events notices)

/-- The engine applies an open script: without a clash, the channels of the other open
scripts are still missing. -/
theorem accept (hl : l.Fresh) (hclash : ¬ l.Clash) {h : Held} (hheld : h ∈ l.held)
    (hopen : h.IsOpen) : (l.act Plant.engine h.task).Fresh := by
  obtain ⟨honce, hnew⟩ := hl.pending h hheld hopen
  refine ⟨hl.ordered.act Plant.engine h.task, hl.safe.act h.task, ?_,
    fun h' hheld' hopen' => ?_, fun h' hheld' hopen' => ?_⟩
  · rw [hubNames_act hl.ordered hheld hopen]
    refine List.nodup_append.2 ⟨hl.nodup, honce, fun name hname name' hname' heq => ?_⟩
    obtain ⟨channel, hchannel, rfl⟩ := List.mem_map.1 hname'
    exact hnew channel hchannel (heq ▸ hname)
  · obtain ⟨hbefore, hother⟩ := mem_of_open_act hheld' hopen'
    obtain ⟨honce', hnew'⟩ := hl.pending h' hbefore hopen'
    rw [hubNames_act hl.ordered hheld hopen]
    refine ⟨honce', fun channel hchannel hmem => ?_⟩
    rcases List.mem_append.1 hmem with hold | hadded
    · exact hnew' channel hchannel hold
    · -- The channel has just been created: the two scripts clashed.
      obtain ⟨channel', hchannel', hname⟩ := List.mem_map.1 hadded
      have hsame : channel' = channel := by
        cases channel'
        cases channel
        exact congrArg ChannelId.mk hname
      exact hclash ⟨h, hheld, h', hbefore, Ne.symm hother, hopen, hopen', channel,
        hsame ▸ hchannel', hchannel⟩
  · rw [(frame_act Plant.engine l h.task).2]
    exact hl.starts h' (mem_of_open_act hheld' hopen').1 hopen'

theorem act (hl : l.Fresh) (hclash : ¬ l.Clash) (task : Nat) :
    (l.act Plant.engine task).Fresh := by
  by_cases happlies : ∃ h, l.nextAct? task = some h ∧ h.IsOpen
  · obtain ⟨h, hnext, hopen⟩ := happlies
    obtain ⟨hheld, rfl, -⟩ := nextAct?_eq_some hnext
    exact hl.accept hclash hheld hopen
  · refine ⟨hl.ordered.act Plant.engine task, hl.safe.act task, ?_,
      fun h hheld hopen => ?_, fun h hheld hopen => ?_⟩
    · rw [engine_act_of_idle happlies]
      exact hl.nodup
    · rw [engine_act_of_idle happlies]
      exact hl.pending h (mem_of_open_act hheld hopen).1 hopen
    · rw [(frame_act Plant.engine l task).2]
      exact hl.starts h (mem_of_open_act hheld hopen).1 hopen

theorem answer (hl : l.Fresh) (task : Nat) : (l.answer task).Fresh := by
  have hengine : (l.answer task).engine = l.engine := engine_answer l task
  refine ⟨hl.ordered.answer task, hl.safe.answer task, ?_, fun h hheld hopen => ?_,
    fun h hheld hopen => ?_⟩
  · rw [hengine]
    exact hl.nodup
  · rw [hengine]
    exact hl.pending h (mem_of_mem_answer hheld) hopen
  · rw [(frame_answer l task).2]
    exact hl.starts h (mem_of_mem_answer hheld) hopen

/-- Without a clash every move leaves pending channels missing from the model. -/
theorem move (hl : l.Fresh) (hclash : ¬ l.Clash) (m : Move) :
    (l.move Plant.engine m).Fresh := by
  cases m with
  | step task =>
    rw [Linker.move]
    cases h : l.step Plant.engine task with
    | none => exact hl
    | some next => exact hl.step h
  | act task => exact hl.act hclash task
  | answer task => exact hl.answer task

theorem play (hl : l.Fresh) (hclash : ∀ moves, ¬ (l.play Plant.engine moves).Clash)
    (moves : List Move) : (l.play Plant.engine moves).Fresh := by
  induction moves generalizing l with
  | nil => exact hl
  | cons m moves ih => exact ih (hl.move (hclash []) m) fun more => hclash (m :: more)

/-- Scripts that clash belong to starts of different components. -/
theorem ids_ne_of_clash (hl : l.Fresh) (hclash : l.Clash) :
    ∃ c c', .start c ∈ l.requests ∧ .start c' ∈ l.requests ∧ c.id ≠ c'.id := by
  obtain ⟨h, hheld, h', hheld', hne, hopen, hopen', channel, hmem, hmem'⟩ := hclash
  obtain ⟨c, hc⟩ := hl.starts h hheld hopen channel hmem
  obtain ⟨c', hc'⟩ := hl.starts h' hheld' hopen' channel hmem'
  refine ⟨c, c', List.mem_of_getElem? hc, List.mem_of_getElem? hc', fun hid => ?_⟩
  -- Two starts of one id take the same turn.
  have hturn : (Request.start c').turn? = some c.id := congrArg some hid.symm
  exact hne (hl.ordered.task_eq_of_turn hheld hheld' hc hc' rfl hturn)

end Fresh

/-! ## Plays with and without a clash -/

variable {settings : Settings} {plant : Plant} {requests : List Request}

/-- Starts of one component leave the names of the channels distinct. -/
theorem hubNames_nodup_of_one_id (hsettings : settings.ScriptSafe)
    (hmodel : plant.model.ScriptSafe settings.nodeName)
    (harriving : Package.ScriptSafe plant.arriving)
    (hrequests : ∀ request ∈ requests, request.ScriptSafe)
    (hhubs : plant.model.hubNames.Nodup)
    (hone : ∀ c c', .start c ∈ requests → .start c' ∈ requests → c.id = c'.id)
    (moves : List Move) :
    ((opening settings plant requests).play Plant.engine moves).engine.model.hubNames.Nodup := by
  have hfresh := Fresh.opening (safe_opening hsettings hmodel harriving hrequests) hhubs
  have hasked := requests_opening settings plant requests
  -- What is asked stays the same, so no move comes to a clash.
  have hmove : ∀ (l : Linker Plant) (m : Move), l.Fresh ∧ l.requests = requests →
      (l.move Plant.engine m).Fresh ∧ (l.move Plant.engine m).requests = requests := by
    rintro l m ⟨hl, hsame⟩
    have hclash : ¬ l.Clash := by
      intro hclash
      obtain ⟨c, c', hc, hc', hne⟩ := hl.ids_ne_of_clash hclash
      rw [hsame] at hc hc'
      exact hne (hone c c' hc hc')
    exact ⟨hl.move hclash m, (frame_move Plant.engine l m).2.trans hsame⟩
  exact (play_induction hmove ⟨hfresh, hasked⟩ moves).1.nodup

/-- The names of the channels stay distinct in every play exactly when no play comes to
a clash. -/
theorem hubNames_nodup_iff_not_clash (hsettings : settings.ScriptSafe)
    (hmodel : plant.model.ScriptSafe settings.nodeName)
    (harriving : Package.ScriptSafe plant.arriving)
    (hrequests : ∀ request ∈ requests, request.ScriptSafe)
    (hhubs : plant.model.hubNames.Nodup) :
    (∀ moves, ((opening settings plant requests).play Plant.engine
        moves).engine.model.hubNames.Nodup) ↔
      ∀ moves, ¬ ((opening settings plant requests).play Plant.engine moves).Clash := by
  have hsafe := safe_opening hsettings hmodel harriving hrequests
  constructor
  · intro hnodup moves hclash
    have hordered := play_induction (P := Ordered) (fun l m hl => hl.move Plant.engine m)
      (ordered_opening settings plant requests) moves
    obtain ⟨more, htwice⟩ := exists_play_of_clash hordered hclash
    rw [← play_append] at htwice
    exact htwice (hnodup (moves ++ more))
  · intro hclash moves
    exact ((Fresh.opening hsafe hhubs).play hclash moves).nodup

/-! ## Two switches for one lamp -/

/-- A node with a lamp. -/
def lampPlant : Plant where
  model := { nodes := [{ name := "home1", components := [⟨"light_a", "org.activehome.Light"⟩] }] }

/-- A switch for the lamp. -/
def lampSwitch (id : String) : Component where
  typeName := "org.activehome.Switch"
  id := id
  portBindings := .ofList [("o", ["home1.light_a.in"])]

/-- The script that starts a switch when the lamp has no channel yet. -/
def lampScript (id : String) : Script :=
  [.addComponent ⟨"home1", id⟩ "org.activehome.Switch",
    .addChannel ⟨"chan_in_home1_light_a"⟩ "AsyncBroadcast",
    .bind ⟨⟨"home1", "light_a"⟩, "in"⟩ ⟨"chan_in_home1_light_a"⟩,
    .bind ⟨⟨"home1", id⟩, "o"⟩ ⟨"chan_in_home1_light_a"⟩]

theorem hubNames_nodup_iff_lampSwitches :
    (Settings.forNode "home1").ScriptSafe ∧ lampPlant.model.ScriptSafe "home1" ∧
      Package.ScriptSafe lampPlant.arriving ∧
      (∀ request ∈ [Request.start (lampSwitch "s1"), .start (lampSwitch "s2")],
        request.ScriptSafe) ∧
      lampPlant.model.hubNames.Nodup ∧
      ((∀ moves, ((opening (.forNode "home1") lampPlant
          [.start (lampSwitch "s1"), .start (lampSwitch "s2")]).play Plant.engine
            moves).engine.model.hubNames.Nodup) ↔
        ∀ moves, ¬ ((opening (.forNode "home1") lampPlant
          [.start (lampSwitch "s1"), .start (lampSwitch "s2")]).play Plant.engine
            moves).Clash) := by
  have hsettings : (Settings.forNode "home1").ScriptSafe := by decide
  have hmodel : lampPlant.model.ScriptSafe "home1" := by decide
  have harriving : Package.ScriptSafe lampPlant.arriving := by decide
  have hrequests : ∀ request ∈ [Request.start (lampSwitch "s1"), .start (lampSwitch "s2")],
      request.ScriptSafe := by decide
  have hhubs : lampPlant.model.hubNames.Nodup := by decide
  exact ⟨hsettings, hmodel, harriving, hrequests, hhubs,
    hubNames_nodup_iff_not_clash hsettings hmodel harriving hrequests hhubs⟩

/-- Both starts look for the channel before either script is applied, and both scripts
create it. -/
theorem hubNames_lampSwitches_not_nodup :
    (Settings.forNode "home1").validate = .ok () ∧ (Settings.forNode "home1").ScriptSafe ∧
      lampPlant.model.ScriptSafe "home1" ∧ Package.ScriptSafe lampPlant.arriving ∧
      (∀ request ∈ [Request.start (lampSwitch "s1"), .start (lampSwitch "s2")],
        request.ScriptSafe) ∧
      lampPlant.model.hubNames.Nodup ∧
      ¬ ((opening (.forNode "home1") lampPlant
          [.start (lampSwitch "s1"), .start (lampSwitch "s2")]).play Plant.engine
        ([.step 0, .step 0, .step 1, .step 1] ++
          [.act 0, .act 1])).engine.model.hubNames.Nodup := by
  refine ⟨rfl, by decide, by decide, by decide, by decide, by decide, ?_⟩
  have hordered := play_induction (P := Ordered) (fun l m hl => hl.move Plant.engine m)
    (ordered_opening (.forNode "home1") lampPlant
      [.start (lampSwitch "s1"), .start (lampSwitch "s2")])
    [.step 0, .step 0, .step 1, .step 1]
  rw [play_append]
  generalize hl : (opening (.forNode "home1") lampPlant
    [.start (lampSwitch "s1"), .start (lampSwitch "s2")]).play Plant.engine
      [.step 0, .step 0, .step 1, .step 1] = l at hordered ⊢
  have hheld : l.held = [⟨0, (lampScript "s1").text, .accept, false⟩,
      ⟨1, (lampScript "s2").text, .accept, false⟩] := by
    rw [← hl]
    decide +kernel
  have hscript : ∀ id ∈ ["s1", "s2"], Script.ofText (lampScript id).text = lampScript id := by
    have hexpressible : ∀ id ∈ ["s1", "s2"], (lampScript id).Expressible := by decide
    exact fun id hid => Script.ofText_text (hexpressible id hid)
  have hmem₁ : (⟨0, (lampScript "s1").text, .accept, false⟩ : Held) ∈ l.held := by simp [hheld]
  have hmem₂ : (⟨1, (lampScript "s2").text, .accept, false⟩ : Held) ∈ l.held := by simp [hheld]
  rw [hubNames_act_act hordered hmem₁ hmem₂ (by decide) (by decide) (by decide)]
  rw [hscript "s1" (by decide), hscript "s2" (by decide)]
  have hshared : ∀ id ∈ ["s1", "s2"],
      ⟨"chan_in_home1_light_a"⟩ ∈ (lampScript id).addedChannels := by decide
  exact not_nodup_of_shared (hshared "s1" (by decide)) (hshared "s2" (by decide))

end Wiring.Linker
