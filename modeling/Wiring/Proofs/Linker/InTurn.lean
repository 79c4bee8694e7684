import Wiring.Proofs.Linker.Handed
import Wiring.Proofs.Linker.Lined

/-!
# Scripts in turn

In every play the requests on one id hand over their scripts one at a time, in the order in
which they asked for the turn, and a start looks at the model only while no script on its id
is with the engine, `scripts_in_turn`.  This holds for every engine.

The invariant is `InTurn`: those who have asked for the turn on an id are those who have
gone again and then the line of the id, and whoever has handed over a script on the id has
gone or stands in front.
-/

namespace Wiring.Linker

variable {σ : Type}

/-- The id whose turn a task takes. -/
def turnOf? (l : Linker σ) (task : Nat) : Option String :=
  l.requests[task]?.bind Request.turn?

/-- The scripts on an id that the engine has not answered. -/
def heldOn (l : Linker σ) (id : String) : List Held :=
  l.held.filter fun h => l.turnOf? h.task = some id

/-- The tasks that have handed over scripts on an id, once for each script. -/
def submittersOn (l : Linker σ) (id : String) : List Nat :=
  (l.scripts.map (·.1)).filter fun task => l.turnOf? task = some id

/-- Who has or waits for a turn. -/
def present (l : Linker σ) : List Nat := l.turns.parties.map (·.handle)

/-- Who asks for a turn in a move. -/
def asking (e : Engine σ) (l : Linker σ) (m : Move) : List Nat :=
  (l.move e m).present.filter fun task => task ∉ l.present

/-- Who asks for a turn in a play, in the order of asking. -/
def askers (e : Engine σ) (l : Linker σ) : List Move → List Nat
  | [] => []
  | m :: moves => l.asking e m ++ (l.move e m).askers e moves

/-- Who asks for the turn on an id in a play. -/
def askersOn (e : Engine σ) (l : Linker σ) (moves : List Move) (id : String) : List Nat :=
  (l.askers e moves).filter fun task => l.turnOf? task = some id

/-- The next step of a task comes to the same whatever state the engine is in. -/
def LooksAway (e : Engine σ) (l : Linker σ) (task : Nat) : Prop :=
  ∀ engine, ({ l with engine } : Linker σ).step e task =
    (l.step e task).map fun next => { next with engine }

variable {e : Engine σ} {l : Linker σ}

theorem turnOf?_eq {task : Nat} {t : Task} (ht : l.tasks[task]? = some t) :
    l.turnOf? task = t.request.turn? := by
  rw [turnOf?, getElem?_requests ht, Option.bind_some]

theorem turnOf?_congr {next : Linker σ} (h : next.requests = l.requests) :
    next.turnOf? = l.turnOf? := by
  funext task
  rw [turnOf?, turnOf?, h]

theorem submittersOn_congr {next : Linker σ} (hrequests : next.requests = l.requests)
    (hscripts : next.scripts = l.scripts) (id : String) :
    next.submittersOn id = l.submittersOn id := by
  rw [submittersOn, submittersOn, hscripts, turnOf?_congr hrequests]

/-! ## Holding the turn -/

/-- A task does not step while it only waits for its turn. -/
theorem holds_of_step {next : Linker σ} {task : Nat} {t : Task} (h : l.step e task = some next)
    (ht : l.tasks[task]? = some t) (hline : t.phase.InLine) : l.turns.holds task = true := by
  obtain ⟨script?, hphase⟩ := hline
  simp only [step, ht, hphase] at h
  split at h
  · assumption
  · simp at h

namespace Lined

/-- Who steps on the way has the turn that its request takes. -/
theorem exists_holder_of_step (hl : l.Lined) {next : Linker σ} {task : Nat} {t : Task}
    (h : l.step e task = some next) (ht : l.tasks[task]? = some t)
    (hunderway : t.phase.Underway) {id : String} (hid : t.request.turn? = some id) :
    ∃ party ∈ l.turns.holders, party.handle = task ∧ party.id = id := by
  rcases hunderway with hline | ⟨s, answer?, hphase⟩
  · obtain ⟨party, hparty, hhandle⟩ := Turns.holds_iff.1 (holds_of_step h ht hline)
    obtain ⟨request, hrequest, hturn⟩ :=
      hl.ordered.asked party (Turns.mem_parties.2 (Or.inl hparty))
    rw [hhandle, getElem?_requests ht] at hrequest
    rw [← Option.some.inj hrequest, hid] at hturn
    exact ⟨party, hparty, hhandle, (Option.some.inj hturn).symm⟩
  · exact hl.ordered.running task t s answer? ht hphase id hid

/-- Who steps and stands in line stands in front. -/
theorem line_eq_cons_of_step (hl : l.Lined) {next : Linker σ} {task : Nat}
    (h : l.step e task = some next) {id : String} (hmem : task ∈ l.turns.line id) :
    ∃ rest, l.turns.line id = task :: rest := by
  obtain ⟨party, hparty, rfl, rfl⟩ := Turns.mem_line_iff.1 hmem
  obtain ⟨t, ht, hunderway⟩ := hl.underway party hparty
  obtain ⟨request, hrequest, hturn⟩ := hl.ordered.asked party hparty
  rw [getElem?_requests ht] at hrequest
  obtain ⟨holder, hholder, hhandle, hid⟩ :=
    hl.exists_holder_of_step h ht hunderway (Option.some.inj hrequest ▸ hturn)
  rw [← hid, ← hhandle]
  exact hl.orderly.line_eq_cons hholder

/-- The scripts on one id are scripts of one task, so there is one at most. -/
theorem length_heldOn_le (hl : l.Lined) (id : String) : (l.heldOn id).length ≤ 1 := by
  have hturn : ∀ h ∈ l.heldOn id, h ∈ l.held ∧ ∃ request,
      l.requests[h.task]? = some request ∧ request.turn? = some id := by
    intro h hh
    obtain ⟨hheld, hid⟩ := List.mem_filter.1 hh
    exact ⟨hheld, Option.bind_eq_some_iff.1 (of_decide_eq_true hid)⟩
  have hdistinct : ((l.heldOn id).map (·.task)).Nodup :=
    hl.ordered.distinct.sublist (List.filter_sublist.map _)
  match hheld : l.heldOn id with
  | [] => exact Nat.zero_le _
  | [h] => exact Nat.le_refl _
  | h :: h' :: rest =>
    obtain ⟨hfirst, request, hrequest, hid⟩ := hturn h (hheld ▸ List.mem_cons_self)
    obtain ⟨hsecond, request', hrequest', hid'⟩ :=
      hturn h' (hheld ▸ List.mem_cons_of_mem _ List.mem_cons_self)
    have hsame := hl.ordered.task_eq_of_turn hfirst hsecond hrequest hrequest' hid hid'
    rw [hheld, List.map_cons, List.map_cons, hsame] at hdistinct
    simp at hdistinct

/-- While a task steps on its way, the engine has no script on its id. -/
theorem heldOn_eq_nil_of_step (hl : l.Lined) {next : Linker σ} {task : Nat} {t : Task}
    (h : l.step e task = some next) (ht : l.tasks[task]? = some t)
    (hunderway : t.phase.Underway) {id : String} (hid : t.request.turn? = some id) :
    l.heldOn id = [] := by
  refine List.filter_eq_nil_iff.2 fun held hheld hturn => ?_
  obtain ⟨u, hu, s, hphase⟩ := hl.ordered.waiting held hheld
  have huid : u.request.turn? = some id := (turnOf?_eq hu).symm.trans (of_decide_eq_true hturn)
  obtain ⟨p, hp, hptask, hpid⟩ := hl.exists_holder_of_step h ht hunderway hid
  obtain ⟨q, hq, hqtask, hqid⟩ := hl.ordered.running held.task u s none hu hphase id huid
  -- Both hold the turn, but who steps does not wait for an answer.
  have hsame := hl.orderly.eq_of_id_eq hp hq (hpid.trans hqid.symm)
  obtain ⟨t', ht', hsteps⟩ := steps_of_step h
  rw [← hqtask, ← hsame, hptask, ht'] at hu
  obtain rfl := Option.some.inj hu
  exact hsteps.not_waits ⟨s, hphase⟩

end Lined

/-- The first step of a start does not look at the model. -/
theorem looksAway_of_asked {task : Nat} {c : Component}
    (ht : l.tasks[task]? = some ⟨.start c, .asked⟩) : l.LooksAway e task := by
  intro engine
  simp only [step, ht, begin]
  split <;> rfl

/-! ## The order of asking -/

/-- The askers of an id are those who have gone and then those in line, and scripts on the
id are of those who have gone or of who stands in front, in the order of asking. -/
structure Queued (l : Linker σ) (asked : List Nat) (id : String) : Prop where
  split : ∃ gone, asked.filter (fun task => l.turnOf? task = some id) =
      gone ++ l.turns.line id ∧
    ∀ task ∈ l.submittersOn id, task ∈ gone ++ (l.turns.line id).take 1
  sorted : (l.submittersOn id).Pairwise fun i j =>
    (asked.filter fun task => l.turnOf? task = some id).idxOf i ≤
      (asked.filter fun task => l.turnOf? task = some id).idxOf j

/-- Nobody asks twice, who has asked has begun, and all ids are served in order. -/
structure InTurn (l : Linker σ) (asked : List Nat) : Prop where
  lined : l.Lined
  nodup : asked.Nodup
  begun : ∀ task ∈ asked, ∃ t, l.tasks[task]? = some t ∧ t.phase ≠ .asked
  queued : ∀ id, l.Queued asked id

theorem inTurn_opening (settings : Settings) (engine : σ) (requests : List Request) :
    (opening settings engine requests).InTurn [] where
  lined := lined_opening settings engine requests
  nodup := List.nodup_nil
  begun := fun _ hmem => absurd hmem List.not_mem_nil
  queued := fun _ => ⟨⟨[], rfl, fun _ hmem => absurd hmem List.not_mem_nil⟩, List.Pairwise.nil⟩

namespace Queued

variable {asked : List Nat} {id : String}

theorem submittersOn_subset (hl : l.Queued asked id) :
    l.submittersOn id ⊆ asked.filter fun task => l.turnOf? task = some id := by
  obtain ⟨gone, hsplit, hgone⟩ := hl.split
  intro task htask
  rw [hsplit]
  rcases List.mem_append.1 (hgone task htask) with hmem | hmem
  · exact List.mem_append_left _ hmem
  · exact List.mem_append_right _ (List.mem_of_mem_take hmem)

theorem congr {next : Linker σ} (hl : l.Queued asked id)
    (hrequests : next.requests = l.requests) (hscripts : next.scripts = l.scripts)
    (hline : next.turns.line id = l.turns.line id) : next.Queued asked id := by
  have hsubmitters := submittersOn_congr hrequests hscripts id
  refine ⟨?_, ?_⟩
  · rw [turnOf?_congr hrequests, hsubmitters, hline]
    exact hl.split
  · rw [turnOf?_congr hrequests, hsubmitters]
    exact hl.sorted

/-- Somebody who stands in front goes. -/
theorem leave {next : Linker σ} (hl : l.Queued asked id)
    (hrequests : next.requests = l.requests) (hscripts : next.scripts = l.scripts)
    {task : Nat} (hline : l.turns.line id = task :: next.turns.line id) :
    next.Queued asked id := by
  have hsubmitters := submittersOn_congr hrequests hscripts id
  obtain ⟨gone, hsplit, hgone⟩ := hl.split
  refine ⟨⟨gone ++ [task], ?_, fun i hi => ?_⟩, ?_⟩
  · rw [turnOf?_congr hrequests, hsplit, hline, List.append_assoc, List.singleton_append]
  · rw [hsubmitters] at hi
    have hmem := hgone i hi
    rw [hline, List.take_succ_cons, List.take_zero] at hmem
    exact List.mem_append_left _ hmem
  · rw [turnOf?_congr hrequests, hsubmitters]
    exact hl.sorted

/-- Somebody asks, for this turn or for another one. -/
theorem ask {next : Linker σ} (hl : l.Queued asked id)
    (hrequests : next.requests = l.requests) (hscripts : next.scripts = l.scripts)
    {task : Nat} (hline : next.turns.line id =
      l.turns.line id ++ if l.turnOf? task = some id then [task] else []) :
    next.Queued (asked ++ [task]) id := by
  have hsubmitters := submittersOn_congr hrequests hscripts id
  have hasked : (asked ++ [task]).filter (fun task => l.turnOf? task = some id) =
      asked.filter (fun task => l.turnOf? task = some id) ++
        if l.turnOf? task = some id then [task] else [] := by
    rw [List.filter_append]
    by_cases hid : l.turnOf? task = some id <;> simp [hid]
  obtain ⟨gone, hsplit, hgone⟩ := hl.split
  refine ⟨⟨gone, ?_, fun i hi => ?_⟩, ?_⟩
  · rw [turnOf?_congr hrequests, hasked, hsplit, hline, List.append_assoc]
  · rw [hsubmitters] at hi
    rcases List.mem_append.1 (hgone i hi) with hmem | hmem
    · exact List.mem_append_left _ hmem
    · rw [hline, List.take_append]
      exact List.mem_append_right _ (List.mem_append_left _ hmem)
  · rw [turnOf?_congr hrequests, hsubmitters, hasked]
    -- Who has submitted has asked before, so its position stays.
    refine hl.sorted.imp_of_mem fun hi hj hle => ?_
    rw [List.idxOf_append_of_mem (hl.submittersOn_subset hi),
      List.idxOf_append_of_mem (hl.submittersOn_subset hj)]
    exact hle

/-- Whoever stands before somebody in a list, or is the same, has no greater position. -/
theorem idxOf_le_idxOf {before after : List Nat} {i j : Nat}
    (hnodup : (before ++ j :: after).Nodup) (hi : i ∈ before ++ [j]) :
    (before ++ j :: after).idxOf i ≤ (before ++ j :: after).idxOf j := by
  rcases List.mem_append.1 hi with hbefore | hlast
  · have hj : j ∉ before := fun hmem =>
      (List.nodup_append.1 hnodup).2.2 j hmem j List.mem_cons_self rfl
    rw [List.idxOf_append_of_mem hbefore, List.idxOf_append_of_notMem hj]
    exact Nat.le_add_right_of_le (Nat.le_of_lt (List.idxOf_lt_length_iff.2 hbefore))
  · obtain rfl := List.mem_singleton.1 hlast
    exact Nat.le_refl _

/-- Who stands in front hands over a script. -/
theorem submit {next : Linker σ} (hl : l.Queued asked id) (hnodup : asked.Nodup)
    (hrequests : next.requests = l.requests) (hturns : next.turns = l.turns) {task : Nat}
    {text : String} (hscripts : next.scripts = l.scripts ++ [(task, text)])
    (hfront : l.turnOf? task = some id → ∃ rest, l.turns.line id = task :: rest) :
    next.Queued asked id := by
  have hsubmitters : next.submittersOn id =
      l.submittersOn id ++ if l.turnOf? task = some id then [task] else [] := by
    rw [submittersOn, submittersOn, hscripts, turnOf?_congr hrequests, List.map_append,
      List.filter_append]
    by_cases hid : l.turnOf? task = some id <;> simp [hid]
  by_cases hid : l.turnOf? task = some id
  · obtain ⟨rest, hline⟩ := hfront hid
    obtain ⟨gone, hsplit, hgone⟩ := hl.split
    rw [if_pos hid] at hsubmitters
    have hfirst : (l.turns.line id).take 1 = [task] := by
      rw [hline, List.take_succ_cons, List.take_zero]
    refine ⟨⟨gone, ?_, fun i hi => ?_⟩, ?_⟩
    · rw [turnOf?_congr hrequests, hturns, hsplit]
    · rw [hsubmitters] at hi
      rw [hturns]
      rcases List.mem_append.1 hi with hold | hnew
      · exact hgone i hold
      · rw [hfirst]
        exact List.mem_append_right _ hnew
    · rw [turnOf?_congr hrequests, hsubmitters, List.pairwise_append]
      refine ⟨hl.sorted, List.pairwise_singleton _ _, fun i hi j hj => ?_⟩
      rw [List.mem_singleton.1 hj, hsplit, hline]
      have hmem := hgone i hi
      rw [hfirst] at hmem
      have hasked : (gone ++ task :: rest).Nodup := by
        rw [← hline, ← hsplit]
        exact hnodup.filter _
      exact idxOf_le_idxOf hasked hmem
  · rw [if_neg hid, List.append_nil] at hsubmitters
    refine ⟨?_, ?_⟩
    · rw [turnOf?_congr hrequests, hsubmitters, hturns]
      exact hl.split
    · rw [turnOf?_congr hrequests, hsubmitters]
      exact hl.sorted

end Queued

/-- Nobody leaves a list who is not in it. -/
theorem filter_ne_eq_self {tasks : List Nat} {task : Nat} (h : task ∉ tasks) :
    tasks.filter (fun other => other ≠ task) = tasks :=
  List.filter_eq_self.2 fun other hother => by
    simpa using fun hsame : other = task => h (hsame ▸ hother)

namespace InTurn

variable {asked : List Nat}

theorem asking_eq_nil {m : Move} (h : (l.move e m).present ⊆ l.present) :
    l.asking e m = [] :=
  List.filter_eq_nil_iff.2 fun _ htask => by simpa using h htask

/-- Who has begun stays begun. -/
theorem begun_setPhase (hl : l.InTurn asked) {task : Nat} {phase : Phase}
    (hphase : phase ≠ .asked) {i : Nat} (hi : i ∈ asked) :
    ∃ t, (l.setPhase task phase).tasks[i]? = some t ∧ t.phase ≠ .asked := by
  obtain ⟨t, ht, hbegun⟩ := hl.begun i hi
  rw [getElem?_setPhase, ht]
  split
  · exact ⟨_, rfl, hphase⟩
  · exact ⟨t, rfl, hbegun⟩

theorem withNotices (hl : l.InTurn asked) (events : List (Event Nat))
    (notices : List (Nat × Notice)) : ({ l with events, notices } : Linker σ).InTurn asked :=
  ⟨hl.lined.withNotices events notices, hl.nodup, hl.begun,
    fun id => (hl.queued id).congr rfl rfl rfl⟩

/-- A task that is finished leaves the line that it stands in front of. -/
theorem finish (hl : l.InTurn asked) {task : Nat} {result : Except Failure Bool}
    (hlined : (l.finish task result).Lined)
    (hfront : ∀ id, task ∈ l.turns.line id → ∃ rest, l.turns.line id = task :: rest) :
    (l.finish task result).InTurn asked := by
  have hrequests : (l.finish task result).requests = l.requests := l.requests_setPhase task _
  refine ⟨hlined, hl.nodup, fun i hi => hl.begun_setPhase (by simp) hi, fun id => ?_⟩
  have hline : (l.turns.release task).line id =
      (l.turns.line id).filter fun other => other ≠ task :=
    Turns.line_release hl.lined.orderly task id
  by_cases hmem : task ∈ l.turns.line id
  · obtain ⟨rest, hrest⟩ := hfront id hmem
    have hnodup := hl.lined.orderly.nodup_line id
    rw [hrest, List.nodup_cons] at hnodup
    rw [hrest, List.filter_cons_of_neg (by simp), filter_ne_eq_self hnodup.1] at hline
    have hgoes : l.turns.line id = task :: (l.turns.release task).line id := by
      rw [hline, hrest]
    exact (hl.queued id).leave hrequests rfl hgoes
  · rw [filter_ne_eq_self hmem] at hline
    exact (hl.queued id).congr hrequests rfl hline

/-- A task that asks for a turn stands last in its line. -/
theorem joinLine (hl : l.InTurn asked) {task : Nat} {t : Task} {id : String}
    {script? : Option Submission} (ht : l.tasks[task]? = some t) (hasked : t.phase = .asked)
    (hturn : t.request.turn? = some id) (hlined : (l.joinLine task id script?).Lined) :
    (l.joinLine task id script?).InTurn (asked ++ [task]) := by
  have hrequests : (l.joinLine task id script?).requests = l.requests :=
    l.requests_setPhase task _
  have hbegun : task ∉ asked := by
    intro hmem
    obtain ⟨u, hu, hne⟩ := hl.begun task hmem
    rw [ht] at hu
    exact hne (Option.some.inj hu ▸ hasked)
  refine ⟨hlined, List.nodup_append.2 ⟨hl.nodup, List.nodup_singleton _, ?_⟩, fun i hi => ?_,
    fun other => ?_⟩
  · intro i hi j hj heq
    rw [heq, List.mem_singleton.1 hj] at hi
    exact hbegun hi
  · rcases List.mem_append.1 hi with hold | hlast
    · exact hl.begun_setPhase (by simp) hold
    · rw [List.mem_singleton.1 hlast]
      exact ⟨_, getElem?_setPhase_self ht (.inLine script?), by simp⟩
  · refine (hl.queued other).ask hrequests rfl ?_
    rw [turnOf?_eq ht, hturn]
    refine (Turns.line_acquire hl.lined.orderly task id other).trans ?_
    by_cases hid : id = other <;> simp [hid]

/-- A task that hands over a script stands in front. -/
theorem submit (hl : l.InTurn asked) {task : Nat} {t : Task} {s : Submission}
    (ht : l.tasks[task]? = some t) (hsubmits : Submits e l task t s)
    (hlined : (l.submit e task s).Lined) : (l.submit e task s).InTurn asked := by
  have hrequests : (l.submit e task s).requests = l.requests := l.requests_setPhase task _
  refine ⟨hlined, hl.nodup, fun i hi => hl.begun_setPhase (by simp) hi, fun id => ?_⟩
  refine (hl.queued id).submit hl.nodup hrequests rfl rfl fun hid => ?_
  rw [turnOf?_eq ht] at hid
  obtain ⟨party, hparty, hhandle, hpid⟩ :=
    hl.lined.ordered.exists_holder_of_submits ht hsubmits hid
  rw [← hhandle, ← hpid]
  exact hl.lined.orderly.line_eq_cons hparty

/-- Who joins a line is the one who asks for a turn. -/
theorem asking_joinLine (hl : l.Lined) {task : Nat} {t : Task} {id : String}
    {script? : Option Submission} {notices : List (Nat × Notice)}
    (ht : l.tasks[task]? = some t) (hasked : t.phase = .asked)
    (hmove : l.move e (.step task) = ({ l with notices } : Linker σ).joinLine task id script?) :
    l.asking e (.step task) = [task] := by
  have hnew : task ∉ l.present := hl.notMem_of_asked ht hasked
  obtain ⟨lock, hperm⟩ := Turns.perm_parties_acquire hl.orderly task id
  have hnone : l.present.filter (fun i => i ∉ l.present) = [] :=
    List.filter_eq_nil_iff.2 fun i hi => by simpa using hi
  have hfilter := (hperm.map (·.handle)).filter fun i => i ∉ l.present
  rw [List.map_cons, List.filter_cons_of_pos (by simpa using hnew)] at hfilter
  rw [asking, hmove]
  exact List.perm_singleton.1 (hfilter.trans (List.Perm.of_eq (congrArg _ hnone)))

theorem step {next : Linker σ} {task : Nat} (hl : l.InTurn asked)
    (h : l.step e task = some next) : next.InTurn (asked ++ l.asking e (.step task)) := by
  have hlined := hl.lined.step h
  have hmove : l.move e (.step task) = next := by rw [Linker.move, h, Option.getD_some]
  obtain ⟨t, ht, hsteps⟩ := steps_of_step h
  cases hsteps with
  | finish events notices result =>
    have hquiet : l.asking e (.step task) = [] := by
      refine asking_eq_nil ?_
      rw [hmove]
      exact List.map_subset _ (Turns.parties_release_subset l.turns task)
    rw [hquiet, List.append_nil]
    exact (hl.withNotices events notices).finish hlined
      fun _ hmem => hl.lined.line_eq_cons_of_step h hmem
  | join notices hjoins =>
    rw [asking_joinLine hl.lined ht hjoins.asked hmove]
    exact (hl.withNotices l.events notices).joinLine ht hjoins.asked hjoins.turn hlined
  | submit events notices hsubmits =>
    have hquiet : l.asking e (.step task) = [] := by
      refine asking_eq_nil ?_
      rw [hmove]
      exact List.Subset.refl _
    rw [hquiet, List.append_nil]
    exact (hl.withNotices events notices).submit ht (hsubmits.withNotices events notices) hlined

/-- What the engine does asks for no turn and hands nothing over. -/
theorem of_engine {m : Move} (hl : l.InTurn asked) (hturns : (l.move e m).turns = l.turns)
    (hscripts : (l.move e m).scripts = l.scripts)
    (hbegun : ∀ (i : Nat) (t : Task), l.tasks[i]? = some t → t.phase ≠ .asked →
      ∃ u : Task, (l.move e m).tasks[i]? = some u ∧ u.phase ≠ .asked) :
    (l.move e m).InTurn (asked ++ l.asking e m) := by
  have hquiet : l.asking e m = [] := by
    refine asking_eq_nil ?_
    rw [present, present, hturns]
    exact List.Subset.refl _
  rw [hquiet, List.append_nil]
  refine ⟨hl.lined.move e m, hl.nodup, fun i hi => ?_, fun id => ?_⟩
  · obtain ⟨t, ht, hphase⟩ := hl.begun i hi
    exact hbegun i t ht hphase
  · exact (hl.queued id).congr (frame_move e l m).2 hscripts (by rw [hturns])

/-- Every move keeps the order of asking. -/
theorem move (hl : l.InTurn asked) (e : Engine σ) (m : Move) :
    (l.move e m).InTurn (asked ++ l.asking e m) := by
  cases m with
  | step task =>
    cases h : l.step e task with
    | none =>
      have hstay : l.move e (.step task) = l := by rw [Linker.move, h, Option.getD_none]
      refine hl.of_engine (by rw [hstay]) (by rw [hstay]) fun i t ht hphase => ?_
      rw [hstay]
      exact ⟨t, ht, hphase⟩
    | some next =>
      have hnext := hl.step h
      rw [Linker.move, h, Option.getD_some]
      exact hnext
  | act task =>
    obtain ⟨htasks, hturns⟩ := tasks_act e l task
    refine hl.of_engine hturns (scripts_act e l task) fun i t ht hphase => ⟨t, ?_, hphase⟩
    rw [Linker.move, htasks]
    exact ht
  | answer task =>
    refine hl.of_engine (turns_answer l task) (scripts_answer l task) fun i t ht hphase => ?_
    rw [Linker.move]
    rcases answer_eq l task with heq | ⟨h, -, -, -, heq⟩
    · rw [heq]
      exact ⟨t, ht, hphase⟩
    · rw [heq]
      obtain ⟨t', ht', rfl | rfl⟩ := exists_getElem?_told ht task h.verdict
      · exact ⟨t', ht', hphase⟩
      · refine ⟨_, ht', ?_⟩
        rcases t.phase_told h.verdict with hsame | ⟨s, -, hnow⟩
        · rwa [hsame]
        · simp [hnow]

theorem play (hl : l.InTurn asked) (e : Engine σ) (moves : List Move) :
    (l.play e moves).InTurn (asked ++ l.askers e moves) := by
  induction moves generalizing l asked with
  | nil =>
    rw [askers, List.append_nil]
    exact hl
  | cons m moves ih =>
    rw [askers, ← List.append_assoc]
    exact ih (hl.move e m)

end InTurn

/-- In every play there is at most one script on an id that waits for an answer; whenever a
start can go on, no script on its id waits or the step does not look at the model; nobody
asks for a turn twice, and the scripts on an id are of those who asked for its turn, in the
order in which they asked. -/
theorem scripts_in_turn (e : Engine σ) (settings : Settings) (engine : σ)
    (requests : List Request) (moves : List Move) (id : String) :
    (((opening settings engine requests).play e moves).heldOn id).length ≤ 1 ∧
      (∀ task t c, ((opening settings engine requests).play e moves).tasks[task]? = some t →
        t.request = .start c → c.id = id →
        (((opening settings engine requests).play e moves).step e task).isSome = true →
        ((opening settings engine requests).play e moves).heldOn id = [] ∨
          t.phase = .asked ∧
            ((opening settings engine requests).play e moves).LooksAway e task) ∧
      ((opening settings engine requests).askersOn e moves id).Nodup ∧
      ((opening settings engine requests).play e moves).submittersOn id ⊆
        (opening settings engine requests).askersOn e moves id ∧
      (((opening settings engine requests).play e moves).submittersOn id).Pairwise fun i j =>
        ((opening settings engine requests).askersOn e moves id).idxOf i ≤
          ((opening settings engine requests).askersOn e moves id).idxOf j := by
  have hall := (inTurn_opening settings engine requests).play e moves
  have hturns := turnOf?_congr (frame_play e (opening settings engine requests) moves).2
  have hqueued := hall.queued id
  have hsubset := hqueued.submittersOn_subset
  have hsorted := hqueued.sorted
  rw [List.nil_append, hturns] at hsubset hsorted
  refine ⟨hall.lined.length_heldOn_le id, fun task t c ht hrequest hid hstep => ?_,
    hall.nodup.filter _, hsubset, hsorted⟩
  obtain ⟨next, hnext⟩ := Option.isSome_iff_exists.1 hstep
  obtain ⟨request, phase⟩ := t
  obtain rfl : request = .start c := hrequest
  have hturn : Request.turn? (.start c) = some id := congrArg some hid
  cases phase with
  | asked => exact Or.inr ⟨rfl, looksAway_of_asked ht⟩
  | inLine script? =>
    exact Or.inl (hall.lined.heldOn_eq_nil_of_step hnext ht (Or.inl ⟨script?, rfl⟩) hturn)
  | submitted s answer? =>
    exact Or.inl (hall.lined.heldOn_eq_nil_of_step hnext ht (Or.inr ⟨s, answer?, rfl⟩) hturn)
  | finished result =>
    simp [Linker.step, ht] at hnext

end Wiring.Linker
