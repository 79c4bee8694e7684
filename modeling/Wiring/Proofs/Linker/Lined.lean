import Wiring.Proofs.Linker.Ordered
import Wiring.Proofs.Turns.Line

/-!
# Tasks in line

In every play the tasks and the table of turns agree on who stands in line: whoever is in
line is in the table, whoever waits in the table has no script out yet, and nobody stays
there that is finished.  A task that waits for an answer has a script with the engine.
`Lined` says so; every move keeps it, and so does asking for more.  This holds for every
engine.
-/

namespace Wiring

/-- A task of this phase stands in line, and it may have its turn by now. -/
def Phase.InLine (phase : Phase) : Prop := ∃ script?, phase = .inLine script?

/-- A task of this phase has begun and is not finished. -/
def Phase.Underway (phase : Phase) : Prop :=
  phase.InLine ∨ ∃ s answer?, phase = .submitted s answer?

theorem not_inLine_asked : ¬ Phase.InLine .asked := by
  rintro ⟨script?, h⟩
  simp at h

theorem not_inLine_submitted (s : Submission) (answer? : Option Verdict) :
    ¬ Phase.InLine (.submitted s answer?) := by
  rintro ⟨script?, h⟩
  simp at h

theorem not_inLine_finished (result : Except Failure Bool) :
    ¬ Phase.InLine (.finished result) := by
  rintro ⟨script?, h⟩
  simp at h

theorem not_underway_asked : ¬ Phase.Underway .asked := by
  rintro (h | ⟨s, answer?, h⟩)
  · exact not_inLine_asked h
  · simp at h

theorem not_underway_finished (result : Except Failure Bool) :
    ¬ Phase.Underway (.finished result) := by
  rintro (h | ⟨s, answer?, h⟩)
  · exact not_inLine_finished result h
  · simp at h

theorem Task.told_inLine_iff (verdict : Verdict) (t : Task) :
    (t.told verdict).phase.InLine ↔ t.phase.InLine := by
  rcases t.phase_told verdict with hsame | ⟨s, hwas, hnow⟩
  · rw [hsame]
  · rw [hwas, hnow]
    exact iff_of_false (not_inLine_submitted _ _) (not_inLine_submitted _ _)

theorem Task.told_underway_iff (verdict : Verdict) (t : Task) :
    (t.told verdict).phase.Underway ↔ t.phase.Underway := by
  rcases t.phase_told verdict with hsame | ⟨s, hwas, hnow⟩
  · rw [hsame]
  · rw [hwas, hnow]
    exact iff_of_true (Or.inr ⟨s, _, rfl⟩) (Or.inr ⟨s, _, rfl⟩)

/-- Who is told an answer does not wait any more. -/
theorem Task.not_waits_told (verdict : Verdict) (t : Task) : ¬ (t.told verdict).phase.Waits := by
  rintro ⟨s, hs⟩
  unfold told at hs
  split at hs
  · simp at hs
  · rename_i hnone
    exact hnone s hs

namespace Linker

variable {σ : Type}

/-- The tasks in line are those in the table that have no script out, what only waits there
is in line, and who waits for an answer has a script with the engine. -/
structure Lined (l : Linker σ) : Prop where
  ordered : l.Ordered
  orderly : l.turns.Orderly
  stands : ∀ (i : Nat) (t : Task), l.tasks[i]? = some t → t.phase.InLine →
    ∃ party ∈ l.turns.parties, party.handle = i
  waits : ∀ party ∈ l.turns.waiting, ∃ t, l.tasks[party.handle]? = some t ∧ t.phase.InLine
  underway : ∀ party ∈ l.turns.parties,
    ∃ t, l.tasks[party.handle]? = some t ∧ t.phase.Underway
  ready : ∀ (i : Nat) (t : Task) (script? : Option Submission), l.tasks[i]? = some t →
    t.phase = .inLine script? → (script? = none ↔ ∃ c, t.request = .start c)
  out : ∀ (i : Nat) (t : Task), l.tasks[i]? = some t → t.phase.Waits →
    ∃ h ∈ l.held, h.task = i

theorem Joins.asked {e : Engine σ} {l : Linker σ} {t : Task} {id : String}
    {script? : Option Submission} (h : Joins e l t id script?) : t.phase = .asked := by
  cases h with
  | start => rfl
  | stop => rfl
  | update => rfl

/-- A start joins its line without a script, and the other requests with one. -/
theorem Joins.script?_eq_none_iff {e : Engine σ} {l : Linker σ} {t : Task} {id : String}
    {script? : Option Submission} (h : Joins e l t id script?) :
    script? = none ↔ ∃ c, t.request = .start c := by
  cases h with
  | start => simp
  | stop => simp
  | update => simp

/-- Who submits a script from the line has the turn. -/
theorem Submits.holds {e : Engine σ} {l : Linker σ} {task : Nat} {t : Task} {s : Submission}
    (h : Submits e l task t s) (hline : t.phase.InLine) : l.turns.holds task = true := by
  cases h with
  | removal => exact absurd hline not_inLine_asked
  | pushed => exact absurd hline not_inLine_asked
  | ready hturn => exact hturn
  | start hturn => exact hturn
  | bindings => exact absurd hline (not_inLine_submitted _ _)

theorem getElem?_ask {l : Linker σ} {requests : List Request} {i : Nat} {t : Task}
    (h : (l.ask requests).tasks[i]? = some t) :
    l.tasks[i]? = some t ∨ l.tasks.length ≤ i ∧ t.phase = .asked := by
  change (l.tasks ++ requests.map fun request => ({ request } : Task))[i]? = some t at h
  rcases Nat.lt_or_ge i l.tasks.length with hi | hi
  · rw [List.getElem?_append_left hi] at h
    exact Or.inl h
  · rw [List.getElem?_append_right hi] at h
    obtain ⟨request, -, rfl⟩ := List.mem_map.1 (List.mem_of_getElem? h)
    exact Or.inr ⟨hi, rfl⟩

theorem getElem?_ask_of_some {l : Linker σ} {i : Nat} {t : Task} (h : l.tasks[i]? = some t)
    (requests : List Request) : (l.ask requests).tasks[i]? = some t := by
  obtain ⟨hi, -⟩ := List.getElem?_eq_some_iff.1 h
  exact (List.getElem?_append_left hi).trans h

/-- Asking for more leaves what is done in turns as it is. -/
theorem Ordered.ask {l : Linker σ} (hl : l.Ordered) (requests : List Request) :
    (l.ask requests).Ordered where
  sound := hl.sound
  asked := by
    intro party hparty
    obtain ⟨request, hrequest, hturn⟩ := hl.asked party hparty
    refine ⟨request, ?_, hturn⟩
    obtain ⟨hi, -⟩ := List.getElem?_eq_some_iff.1 hrequest
    rw [Linker.requests, Linker.ask, List.map_append]
    exact (List.getElem?_append_left hi).trans hrequest
  running := by
    intro i t s answer? ht hphase
    rcases getElem?_ask ht with hold | ⟨-, hasked⟩
    · exact hl.running i t s answer? hold hphase
    · rw [hasked] at hphase
      simp at hphase
  waiting := by
    intro h hheld
    obtain ⟨t, ht, hwaits⟩ := hl.waiting h hheld
    exact ⟨t, getElem?_ask_of_some ht requests, hwaits⟩
  distinct := hl.distinct

theorem lined_opening (settings : Settings) (engine : σ) (requests : List Request) :
    (opening settings engine requests).Lined where
  ordered := ordered_opening settings engine requests
  orderly := Turns.orderly_empty
  stands := by
    intro i t ht hline
    obtain ⟨request, -, rfl⟩ := List.mem_map.1 (List.mem_of_getElem? ht)
    exact absurd hline not_inLine_asked
  waits := fun _ hparty => absurd hparty List.not_mem_nil
  underway := fun _ hparty => absurd hparty List.not_mem_nil
  ready := by
    intro i t script? ht hphase
    obtain ⟨request, -, rfl⟩ := List.mem_map.1 (List.mem_of_getElem? ht)
    simp at hphase
  out := by
    intro i t ht hwaits
    obtain ⟨request, -, rfl⟩ := List.mem_map.1 (List.mem_of_getElem? ht)
    exact absurd hwaits not_waits_asked

namespace Lined

variable {l : Linker σ} {task : Nat} {t : Task}

theorem ask (hl : l.Lined) (requests : List Request) : (l.ask requests).Lined where
  ordered := hl.ordered.ask requests
  orderly := hl.orderly
  stands := by
    intro i t ht hline
    rcases getElem?_ask ht with hold | ⟨-, hasked⟩
    · exact hl.stands i t hold hline
    · exact absurd (hasked ▸ hline) not_inLine_asked
  waits := by
    intro party hparty
    obtain ⟨t, ht, hline⟩ := hl.waits party hparty
    exact ⟨t, getElem?_ask_of_some ht requests, hline⟩
  underway := by
    intro party hparty
    obtain ⟨t, ht, hunderway⟩ := hl.underway party hparty
    exact ⟨t, getElem?_ask_of_some ht requests, hunderway⟩
  ready := by
    intro i t script? ht hphase
    rcases getElem?_ask ht with hold | ⟨-, hasked⟩
    · exact hl.ready i t script? hold hphase
    · rw [hasked] at hphase
      simp at hphase
  out := by
    intro i t ht hwaits
    rcases getElem?_ask ht with hold | ⟨-, hasked⟩
    · exact hl.out i t hold hwaits
    · exact absurd (hasked ▸ hwaits) not_waits_asked

theorem withNotices (hl : l.Lined) (events : List (Event Nat))
    (notices : List (Nat × Notice)) : ({ l with events, notices } : Linker σ).Lined :=
  ⟨hl.ordered.withNotices events notices, hl.orderly, hl.stands, hl.waits, hl.underway,
    hl.ready, hl.out⟩

/-- A task that has not begun is not in the table. -/
theorem notMem_of_asked (hl : l.Lined) (ht : l.tasks[task]? = some t)
    (hasked : t.phase = .asked) : task ∉ l.turns.parties.map (·.handle) := by
  intro hmem
  obtain ⟨party, hparty, rfl⟩ := List.mem_map.1 hmem
  obtain ⟨u, hu, hunderway⟩ := hl.underway party hparty
  rw [ht] at hu
  exact not_underway_asked (hasked ▸ Option.some.inj hu ▸ hunderway)

theorem finish (hl : l.Lined) (ht : l.tasks[task]? = some t) (hwaits : ¬ t.phase.Waits)
    (result : Except Failure Bool) : (l.finish task result).Lined := by
  have hperm := Turns.perm_parties_release hl.orderly task
  have hrest : ∀ party ∈ (l.turns.release task).parties,
      party ∈ l.turns.parties ∧ party.handle ≠ task := by
    intro party hparty
    simpa using List.mem_filter.1 (hperm.mem_iff.1 hparty)
  refine ⟨hl.ordered.finish ht hwaits result, Turns.orderly_release hl.orderly task,
    fun i u hu hline => ?_, fun party hparty => ?_, fun party hparty => ?_,
    fun i u script? hu hphase => ?_, fun i u hu huwaits => ?_⟩
  · rcases eq_or_of_getElem?_setPhase hu with ⟨hi, hbefore⟩ | ⟨-, hfinished, -⟩
    · obtain ⟨party, hparty, hhandle⟩ := hl.stands i u hbefore hline
      refine ⟨party, hperm.mem_iff.2 (List.mem_filter.2 ⟨hparty, ?_⟩), hhandle⟩
      simpa [hhandle] using hi
    · exact absurd (hfinished ▸ hline) (not_inLine_finished result)
  · obtain ⟨-, hne⟩ := hrest party (Turns.mem_parties.2 (Or.inr hparty))
    obtain ⟨u, hu, hline⟩ := hl.waits party (Turns.waiting_release_subset hl.orderly task hparty)
    exact ⟨u, (getElem?_setPhase_of_ne hne _).trans hu, hline⟩
  · obtain ⟨hmem, hne⟩ := hrest party hparty
    obtain ⟨u, hu, hunderway⟩ := hl.underway party hmem
    exact ⟨u, (getElem?_setPhase_of_ne hne _).trans hu, hunderway⟩
  · rcases eq_or_of_getElem?_setPhase hu with ⟨-, hbefore⟩ | ⟨-, hfinished, -⟩
    · exact hl.ready i u script? hbefore hphase
    · rw [hfinished] at hphase
      simp at hphase
  · rcases eq_or_of_getElem?_setPhase hu with ⟨-, hbefore⟩ | ⟨-, hfinished, -⟩
    · exact hl.out i u hbefore huwaits
    · obtain ⟨s, hs⟩ := huwaits
      rw [hfinished] at hs
      simp at hs

theorem joinLine (hl : l.Lined) (ht : l.tasks[task]? = some t) {e : Engine σ} {id : String}
    {script? : Option Submission} (hjoins : Joins e l t id script?) :
    (l.joinLine task id script?).Lined := by
  have hasked := hjoins.asked
  have hwaits : ¬ t.phase.Waits := by
    rw [hasked]
    exact not_waits_asked
  have hnew := hl.notMem_of_asked ht hasked
  obtain ⟨lock, hperm⟩ := Turns.perm_parties_acquire hl.orderly task id
  have hset := getElem?_setPhase_self ht (.inLine script?)
  -- Whoever was in the table before is another task.
  have hold : ∀ party ∈ l.turns.parties,
      (l.setPhase task (.inLine script?)).tasks[party.handle]? = l.tasks[party.handle]? := by
    intro party hparty
    refine getElem?_setPhase_of_ne (fun hsame => hnew ?_) _
    exact List.mem_map.2 ⟨party, hparty, hsame⟩
  refine ⟨hl.ordered.joinLine ht hwaits hjoins.turn script?,
    Turns.orderly_acquire hl.orderly hnew id, fun i u hu hline => ?_, fun party hparty => ?_,
    fun party hparty => ?_, fun i u script?' hu hphase => ?_, fun i u hu huwaits => ?_⟩
  · rcases eq_or_of_getElem?_setPhase hu with ⟨-, hbefore⟩ | ⟨rfl, -, -⟩
    · obtain ⟨party, hparty, hhandle⟩ := hl.stands i u hbefore hline
      exact ⟨party, hperm.mem_iff.2 (List.mem_cons_of_mem _ hparty), hhandle⟩
    · exact ⟨_, hperm.mem_iff.2 List.mem_cons_self, rfl⟩
  · rcases Turns.mem_waiting_acquire hl.orderly hparty with hbefore | hhandle
    · obtain ⟨u, hu, hline⟩ := hl.waits party hbefore
      exact ⟨u, (hold party (Turns.mem_parties.2 (Or.inr hbefore))).trans hu, hline⟩
    · rw [hhandle]
      exact ⟨_, hset, script?, rfl⟩
  · rcases List.mem_cons.1 (hperm.mem_iff.1 hparty) with rfl | hbefore
    · exact ⟨_, hset, Or.inl ⟨script?, rfl⟩⟩
    · obtain ⟨u, hu, hunderway⟩ := hl.underway party hbefore
      exact ⟨u, (hold party hbefore).trans hu, hunderway⟩
  · rcases eq_or_of_getElem?_setPhase hu with
      ⟨-, hbefore⟩ | ⟨rfl, hinLine, before, hbefore, hrequest⟩
    · exact hl.ready i u script?' hbefore hphase
    · have hbefore' : l.tasks[i]? = some before := hbefore
      rw [ht] at hbefore'
      obtain rfl := Option.some.inj hbefore'
      rw [hinLine] at hphase
      rw [← Phase.inLine.inj hphase, ← hrequest]
      exact hjoins.script?_eq_none_iff
  · rcases eq_or_of_getElem?_setPhase hu with ⟨-, hbefore⟩ | ⟨-, hinLine, -⟩
    · exact hl.out i u hbefore huwaits
    · exact absurd (hinLine ▸ huwaits) (not_waits_inLine script?)

/-- Who submits a script does not wait for a turn. -/
theorem handle_ne_of_submits (hl : l.Lined) (ht : l.tasks[task]? = some t) {e : Engine σ}
    {s : Submission} (hsubmits : Submits e l task t s) {party : Party Nat}
    (hparty : party ∈ l.turns.waiting) : party.handle ≠ task := by
  rintro rfl
  obtain ⟨u, hu, hline⟩ := hl.waits party hparty
  rw [ht] at hu
  obtain rfl := Option.some.inj hu
  obtain ⟨holder, hholder, hhandle⟩ := Turns.holds_iff.1 (hsubmits.holds hline)
  exact hl.orderly.handle_ne hholder hparty hhandle

theorem submit (hl : l.Lined) {e : Engine σ} {s : Submission} (ht : l.tasks[task]? = some t)
    (hwaits : ¬ t.phase.Waits) (hsubmits : Submits e l task t s) :
    (l.submit e task s).Lined := by
  have hset := getElem?_setPhase_self ht (.submitted s none)
  refine ⟨hl.ordered.submit ht hwaits hsubmits, hl.orderly, fun i u hu hline => ?_,
    fun party hparty => ?_, fun party hparty => ?_, fun i u script? hu hphase => ?_,
    fun i u hu huwaits => ?_⟩
  · rcases eq_or_of_getElem?_setPhase hu with ⟨-, hbefore⟩ | ⟨-, hsubmitted, -⟩
    · exact hl.stands i u hbefore hline
    · exact absurd (hsubmitted ▸ hline) (not_inLine_submitted s none)
  · obtain ⟨u, hu, hline⟩ := hl.waits party hparty
    have hne := hl.handle_ne_of_submits ht hsubmits hparty
    exact ⟨u, (getElem?_setPhase_of_ne hne _).trans hu, hline⟩
  · by_cases hsame : party.handle = task
    · rw [hsame]
      exact ⟨_, hset, Or.inr ⟨s, none, rfl⟩⟩
    · obtain ⟨u, hu, hunderway⟩ := hl.underway party hparty
      exact ⟨u, (getElem?_setPhase_of_ne hsame _).trans hu, hunderway⟩
  · rcases eq_or_of_getElem?_setPhase hu with ⟨-, hbefore⟩ | ⟨-, hsubmitted, -⟩
    · exact hl.ready i u script? hbefore hphase
    · rw [hsubmitted] at hphase
      simp at hphase
  · rcases eq_or_of_getElem?_setPhase hu with ⟨-, hbefore⟩ | ⟨rfl, -, -⟩
    · obtain ⟨h, hheld, htask⟩ := hl.out i u hbefore huwaits
      exact ⟨h, List.mem_append_left _ hheld, htask⟩
    · exact ⟨_, List.mem_append_right _ List.mem_cons_self, rfl⟩

theorem step {e : Engine σ} {next : Linker σ} (hl : l.Lined)
    (h : l.step e task = some next) : next.Lined := by
  obtain ⟨t, ht, hsteps⟩ := steps_of_step h
  have hwaits := hsteps.not_waits
  cases hsteps with
  | finish events notices result => exact (hl.withNotices events notices).finish ht hwaits result
  | join notices hjoins =>
    exact (hl.withNotices l.events notices).joinLine ht (hjoins.withNotices l.events notices)
  | submit events notices hsubmits =>
    exact (hl.withNotices events notices).submit ht hwaits
      (hsubmits.withNotices events notices)

theorem act (hl : l.Lined) (e : Engine σ) (task : Nat) : (l.act e task).Lined := by
  have hordered := hl.ordered.act e task
  cases hnext : l.nextAct? task with
  | none =>
    rw [act_of_none hnext]
    exact hl
  | some h =>
    rw [act_of_some hnext] at hordered ⊢
    refine ⟨hordered, hl.orderly, hl.stands, hl.waits, hl.underway, hl.ready,
      fun i u hu huwaits => ?_⟩
    obtain ⟨h', hheld, htask⟩ := hl.out i u hu huwaits
    exact ⟨h'.mark task, List.mem_map_of_mem hheld, (Held.task_mark task h').trans htask⟩

theorem answer (hl : l.Lined) (task : Nat) : (l.answer task).Lined := by
  have hordered := hl.ordered.answer task
  rcases answer_eq l task with heq | ⟨h, hheld, htask, -, heq⟩
  · rw [heq]
    exact hl
  · rw [heq] at hordered ⊢
    refine ⟨hordered, hl.orderly, fun i u hu hline => ?_, fun party hparty => ?_,
      fun party hparty => ?_, fun i u script? hu hphase => ?_, fun i u hu huwaits => ?_⟩
    · obtain ⟨before, hbefore, -, hphases⟩ := getElem?_told hu
      rcases hphases with hsame | ⟨s, -, hnow⟩
      · exact hl.stands i before hbefore (hsame ▸ hline)
      · exact absurd (hnow ▸ hline) (not_inLine_submitted s _)
    · obtain ⟨t, ht, hline⟩ := hl.waits party hparty
      obtain ⟨t', ht', rfl | rfl⟩ := exists_getElem?_told ht task h.verdict
      · exact ⟨t', ht', hline⟩
      · exact ⟨_, ht', (Task.told_inLine_iff _ _).2 hline⟩
    · obtain ⟨t, ht, hunderway⟩ := hl.underway party hparty
      obtain ⟨t', ht', rfl | rfl⟩ := exists_getElem?_told ht task h.verdict
      · exact ⟨t', ht', hunderway⟩
      · exact ⟨_, ht', (Task.told_underway_iff _ _).2 hunderway⟩
    · obtain ⟨before, hbefore, hrequest, hphases⟩ := getElem?_told hu
      rw [hrequest]
      rcases hphases with hsame | ⟨s, -, hnow⟩
      · exact hl.ready i before script? hbefore (hsame ▸ hphase)
      · rw [hnow] at hphase
        simp at hphase
    · -- The task that was told does not wait any more.
      obtain ⟨before, hbefore, -, hphases⟩ := getElem?_told hu
      rcases hphases with hsame | ⟨s, -, hnow⟩
      · obtain ⟨h', hheld', htask'⟩ := hl.out i before hbefore (hsame ▸ huwaits)
        refine ⟨h', List.mem_filter.2 ⟨hheld', ?_⟩, htask'⟩
        have hne : i ≠ task := by
          rintro rfl
          rw [List.getElem?_modify, hbefore, Option.map_eq_map, Option.map_some,
            if_pos rfl] at hu
          exact before.not_waits_told h.verdict (Option.some.inj hu ▸ huwaits)
        simpa [htask'] using hne
      · exact absurd (hnow ▸ huwaits) (not_waits_answered s _)

/-- Every move keeps tasks and turns in agreement. -/
theorem move (hl : l.Lined) (e : Engine σ) (m : Move) : (l.move e m).Lined := by
  cases m with
  | step task =>
    rw [Linker.move]
    cases h : l.step e task with
    | none => exact hl
    | some next => exact hl.step h
  | act task => exact hl.act e task
  | answer task => exact hl.answer task

theorem play (hl : l.Lined) (e : Engine σ) (moves : List Move) : (l.play e moves).Lined :=
  play_induction (fun _ m hl' => hl'.move e m) hl moves

end Lined

end Linker

end Wiring
