import Wiring.Proofs.Linker.Play
import Wiring.Proofs.Turns.Exclusion

/-!
# Requests take turns

In every play the turns stay sound, everybody in the table is a task that asked for the
turn on its own component id, and a task with a script out holds its turn.  So the
engine never holds scripts of two tasks on one component id, `Ordered.task_eq_of_turn`.
This holds for every engine.
-/

namespace Wiring.Linker

variable {σ : Type}

/-- Tasks with a script out hold the turns that they need, and the engine holds at
most one script of each of them. -/
structure Ordered (l : Linker σ) : Prop where
  sound : l.turns.Sound
  asked : ∀ party ∈ l.turns.parties, ∃ request, l.requests[party.handle]? = some request ∧
    request.turn? = some party.id
  running : ∀ i t s answer?, l.tasks[i]? = some t → t.phase = .submitted s answer? →
    ∀ id, t.request.turn? = some id →
      ∃ party ∈ l.turns.holders, party.handle = i ∧ party.id = id
  waiting : ∀ h ∈ l.held, ∃ t, l.tasks[h.task]? = some t ∧ t.phase.Waits
  distinct : (l.held.map (·.task)).Nodup

theorem ordered_opening (settings : Settings) (engine : σ) (requests : List Request) :
    (opening settings engine requests).Ordered where
  sound := Turns.sound_empty
  asked := fun _ hparty => absurd hparty List.not_mem_nil
  running := by
    intro i t s answer? ht hphase
    -- Every task is new.
    obtain ⟨request, -, rfl⟩ := List.mem_map.1 (List.mem_of_getElem? ht)
    simp at hphase
  waiting := fun _ hheld => absurd hheld List.not_mem_nil
  distinct := List.nodup_nil

/-- The engine does not hold scripts of two tasks on one component id. -/
theorem Ordered.task_eq_of_turn {l : Linker σ} (hl : l.Ordered) {h h' : Held}
    (hheld : h ∈ l.held) (hheld' : h' ∈ l.held) {request request' : Request}
    (hrequest : l.requests[h.task]? = some request)
    (hrequest' : l.requests[h'.task]? = some request') {id : String}
    (hid : request.turn? = some id) (hid' : request'.turn? = some id) : h.task = h'.task := by
  obtain ⟨t, ht, s, hphase⟩ := hl.waiting h hheld
  obtain ⟨t', ht', s', hphase'⟩ := hl.waiting h' hheld'
  rw [getElem?_requests ht, Option.some.injEq] at hrequest
  rw [getElem?_requests ht', Option.some.injEq] at hrequest'
  obtain ⟨p, hp, hpi, hpid⟩ := hl.running h.task t s none ht hphase id (hrequest ▸ hid)
  obtain ⟨q, hq, hqj, hqid⟩ := hl.running h'.task t' s' none ht' hphase' id (hrequest' ▸ hid')
  have hsame := hl.sound.eq_of_id_eq hp hq (hpid.trans hqid.symm)
  rw [← hpi, ← hqj, hsame]

namespace Ordered

variable {l : Linker σ} {task : Nat} {t : Task}

theorem withNotices (hl : l.Ordered) (events : List (Event Nat))
    (notices : List (Nat × Notice)) : ({ l with events, notices } : Linker σ).Ordered :=
  ⟨hl.sound, hl.asked, hl.running, hl.waiting, hl.distinct⟩

/-- The requests of the parties stay theirs when a phase is set. -/
theorem asked_setPhase (hl : l.Ordered) (phase : Phase) {party : Party Nat}
    (hparty : party ∈ l.turns.parties) :
    ∃ request, (l.setPhase task phase).requests[party.handle]? = some request ∧
      request.turn? = some party.id := by
  rw [requests_setPhase]
  exact hl.asked party hparty

/-- A task that does not wait has no script with the engine. -/
theorem task_ne (hl : l.Ordered) (ht : l.tasks[task]? = some t) (hwaits : ¬ t.phase.Waits)
    {h : Held} (hheld : h ∈ l.held) : h.task ≠ task := by
  rintro rfl
  obtain ⟨u, hu, huwaits⟩ := hl.waiting h hheld
  rw [ht] at hu
  exact hwaits (Option.some.inj hu ▸ huwaits)

/-- Setting the phase of a task that does not wait leaves the waiting tasks alone. -/
theorem waiting_setPhase (hl : l.Ordered) (ht : l.tasks[task]? = some t)
    (hwaits : ¬ t.phase.Waits) (phase : Phase) {h : Held} (hheld : h ∈ l.held) :
    ∃ u, (l.setPhase task phase).tasks[h.task]? = some u ∧ u.phase.Waits := by
  rw [getElem?_setPhase_of_ne (hl.task_ne ht hwaits hheld)]
  exact hl.waiting h hheld

theorem finish (hl : l.Ordered) (ht : l.tasks[task]? = some t) (hwaits : ¬ t.phase.Waits)
    (result : Except Failure Bool) : (l.finish task result).Ordered where
  sound := Turns.sound_release hl.sound task
  asked := by
    intro party hparty
    exact hl.asked_setPhase _ (Turns.parties_release_subset _ _ hparty)
  running := by
    intro i u s answer? hu hphase id hid
    rcases eq_or_of_getElem?_setPhase hu with ⟨hi, hbefore⟩ | ⟨-, hfinished, -⟩
    · obtain ⟨party, hparty, hhandle, hpid⟩ :=
        hl.running i u s answer? hbefore hphase id hid
      refine ⟨party, Turns.mem_holders_release hparty ?_, hhandle, hpid⟩
      rw [hhandle]
      exact hi
    · rw [hfinished] at hphase
      simp at hphase
  waiting := fun _ hheld => hl.waiting_setPhase ht hwaits _ hheld
  distinct := hl.distinct

theorem joinLine (hl : l.Ordered) (ht : l.tasks[task]? = some t) (hwaits : ¬ t.phase.Waits)
    {id : String} (hturn : t.request.turn? = some id) (script? : Option Submission) :
    (l.joinLine task id script?).Ordered where
  sound := Turns.sound_acquire hl.sound task id
  asked := by
    intro party hparty
    rcases Turns.mem_parties_acquire hparty with hold | ⟨hhandle, hpid⟩
    · exact hl.asked_setPhase _ hold
    · have hsame := l.requests_setPhase task (.inLine script?)
      have hrequest := getElem?_requests ht
      rw [← hsame] at hrequest
      rw [hhandle, hpid]
      exact ⟨t.request, hrequest, hturn⟩
  running := by
    intro i u s answer? hu hphase id' hid
    rcases eq_or_of_getElem?_setPhase hu with ⟨-, hbefore⟩ | ⟨-, hinLine, -⟩
    · obtain ⟨party, hparty, hfits⟩ := hl.running i u s answer? hbefore hphase id' hid
      exact ⟨party, Turns.mem_holders_acquire hparty task id, hfits⟩
    · rw [hinLine] at hphase
      simp at hphase
  waiting := fun _ hheld => hl.waiting_setPhase ht hwaits _ hheld
  distinct := hl.distinct

/-- A task has its turn when it submits a script. -/
theorem exists_holder_of_submits (hl : l.Ordered) {e : Engine σ} {s : Submission}
    (ht : l.tasks[task]? = some t) (hsubmits : Submits e l task t s) {id : String}
    (hid : t.request.turn? = some id) :
    ∃ party ∈ l.turns.holders, party.handle = task ∧ party.id = id := by
  have hholder : l.turns.holds task = true →
      ∃ party ∈ l.turns.holders, party.handle = task ∧ party.id = id := by
    intro hholds
    obtain ⟨party, hparty, hhandle⟩ := Turns.holds_iff.1 hholds
    obtain ⟨request, hrequest, hturn⟩ := hl.asked party (Turns.mem_parties.2 (Or.inl hparty))
    rw [hhandle, getElem?_requests ht] at hrequest
    rw [← Option.some.inj hrequest, hid] at hturn
    exact ⟨party, hparty, hhandle, (Option.some.inj hturn).symm⟩
  cases hsubmits with
  | removal => simp [Request.turn?] at hid
  | pushed => simp [Request.turn?] at hid
  | ready hturn => exact hholder hturn
  | start hturn => exact hholder hturn
  | bindings => exact hl.running task _ _ _ ht rfl id hid

theorem submit (hl : l.Ordered) {e : Engine σ} {s : Submission}
    (ht : l.tasks[task]? = some t) (hwaits : ¬ t.phase.Waits)
    (hsubmits : Submits e l task t s) : (l.submit e task s).Ordered where
  sound := hl.sound
  asked := fun _ hparty => hl.asked_setPhase _ hparty
  running := by
    intro i u s' answer? hu hphase id hid
    rcases eq_or_of_getElem?_setPhase hu with ⟨-, hbefore⟩ | ⟨rfl, -, before, hbefore, hrequest⟩
    · exact hl.running i u s' answer? hbefore hphase id hid
    · -- It is the task that submits, which has its turn.
      have hbefore' : l.tasks[i]? = some before := hbefore
      rw [ht] at hbefore'
      obtain rfl := Option.some.inj hbefore'
      exact hl.exists_holder_of_submits ht hsubmits (hrequest ▸ hid)
  waiting := by
    intro h hheld
    rcases List.mem_append.1 hheld with hold | hnew
    · exact hl.waiting_setPhase ht hwaits _ hold
    · have htask : h.task = task := by rw [List.mem_singleton.1 hnew]
      have hset : (l.setPhase task (.submitted s none)).tasks[task]? =
          some { t with phase := .submitted s none } := by
        rw [getElem?_setPhase, if_pos rfl, ht, Option.map_some]
      rw [htask]
      exact ⟨_, hset, s, rfl⟩
  distinct := by
    have hnew : task ∉ l.held.map (·.task) := by
      intro hmem
      obtain ⟨h, hheld, hsame⟩ := List.mem_map.1 hmem
      exact hl.task_ne ht hwaits hheld hsame
    have happend := hl.distinct.concat hnew
    rw [List.concat_eq_append] at happend
    have htasks : ((l.submit e task s).held.map (·.task)) =
        l.held.map (·.task) ++ [task] := List.map_append
    rw [htasks]
    exact happend

theorem step {e : Engine σ} {next : Linker σ} (hl : l.Ordered)
    (h : l.step e task = some next) : next.Ordered := by
  obtain ⟨t, ht, hsteps⟩ := steps_of_step h
  have hwaits := hsteps.not_waits
  cases hsteps with
  | finish events notices result => exact (hl.withNotices events notices).finish ht hwaits result
  | join notices hjoins =>
    exact (hl.withNotices l.events notices).joinLine ht hwaits hjoins.turn _
  | submit events notices hsubmits =>
    exact (hl.withNotices events notices).submit ht hwaits
      (hsubmits.withNotices events notices)

theorem act (hl : l.Ordered) (e : Engine σ) (task : Nat) : (l.act e task).Ordered := by
  cases hnext : l.nextAct? task with
  | none =>
    rw [act_of_none hnext]
    exact hl
  | some h =>
    have hdistinct := hl.distinct
    rw [act_of_some hnext]
    refine ⟨hl.sound, hl.asked, hl.running, fun h' hheld' => ?_, ?_⟩
    · obtain ⟨before, hbefore, rfl⟩ := List.mem_map.1 hheld'
      rw [Held.task_mark]
      exact hl.waiting before hbefore
    · have htasks : (l.held.map (Held.mark task)).map (·.task) = l.held.map (·.task) := by
        rw [List.map_map]
        exact List.map_congr_left fun h' _ => Held.task_mark task h'
      rw [← htasks] at hdistinct
      exact hdistinct

theorem answer (hl : l.Ordered) (task : Nat) : (l.answer task).Ordered := by
  rcases answer_eq l task with heq | ⟨h, hheld, -, -, heq⟩
  · rw [heq]
    exact hl
  · rw [heq]
    refine ⟨hl.sound, fun party hparty => ?_, fun i u s answer? hu hphase id hid => ?_,
      fun h' hheld' => ?_, hl.distinct.sublist (List.filter_sublist.map _)⟩
    · obtain ⟨request, hrequest, hturn⟩ := hl.asked party hparty
      rw [← l.requests_told task h.verdict] at hrequest
      exact ⟨request, hrequest, hturn⟩
    · obtain ⟨before, hbefore, hrequest, hphases⟩ := getElem?_told hu
      rw [hrequest] at hid
      rcases hphases with hsame | ⟨s', hwas, -⟩
      · exact hl.running i before s answer? hbefore (hsame ▸ hphase) id hid
      · exact hl.running i before s' none hbefore hwas id hid
    · obtain ⟨hmem, hother⟩ := List.mem_filter.1 hheld'
      have hne : task ≠ h'.task := fun hsame => by simp [hsame] at hother
      obtain ⟨t, ht, hwaits⟩ := hl.waiting h' hmem
      refine ⟨t, ?_, hwaits⟩
      exact (List.getElem?_modify_ne _ _ hne).trans ht

/-- Every move keeps the order of turns. -/
theorem move (hl : l.Ordered) (e : Engine σ) (m : Move) : (l.move e m).Ordered := by
  cases m with
  | step task =>
    rw [Linker.move]
    cases h : l.step e task with
    | none => exact hl
    | some next => exact hl.step h
  | act task => exact hl.act e task
  | answer task => exact hl.answer task

end Ordered

end Wiring.Linker
