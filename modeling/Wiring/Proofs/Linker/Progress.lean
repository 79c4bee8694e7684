import Wiring.Proofs.Linker.Account
import Wiring.Proofs.Linker.Lined

/-!
# No request is left waiting

In every play an unfinished task that cannot be carried on waits for the answer to a script
of its own, or for the turn of another task that goes on, `Lined.awaits`.  So when the engine
has no script and no task can be carried on, all tasks are finished, and a run finishes all
of them, whichever script is completed first, `result?_of_run`.  This holds for every engine
and all its decisions.

A run is a play, `exists_play_run`, and it ends where nothing is left to do, since every
script that is completed lowers the load of the linker, `load_complete_lt`.
-/

namespace Wiring.Linker

variable {σ : Type}

/-- The engine has a script of the task that it has not answered. -/
def IsOut (l : Linker σ) (task : Nat) : Prop := ∃ h ∈ l.held, h.task = task

/-- A task can be carried on, or its script is to be answered. -/
def GoesOn (e : Engine σ) (l : Linker σ) (task : Nat) : Prop :=
  (l.step e task).isSome = true ∨ l.IsOut task

/-- A task is in line for the turn that another one has. -/
def AwaitsTurnOf (l : Linker σ) (task other : Nat) : Prop :=
  ∃ party ∈ l.turns.waiting, ∃ holder ∈ l.turns.holders,
    party.handle = task ∧ holder.handle = other ∧ party.id = holder.id

/-- Nothing is left to do: no task can be carried on, and no script is to be answered. -/
def IsQuiet (e : Engine σ) (l : Linker σ) : Prop :=
  (∀ task, l.step e task = none) ∧ l.held = []

variable {e : Engine σ} {l : Linker σ}

theorem length_requests (l : Linker σ) : l.requests.length = l.tasks.length := by
  rw [requests, List.length_map]

theorem length_tasks_play (e : Engine σ) (l : Linker σ) (moves : List Move) :
    (l.play e moves).tasks.length = l.tasks.length := by
  rw [← length_requests, (frame_play e l moves).2, length_requests]

/-! ## What an unfinished task waits for -/

theorem result?_eq_none_of_underway {task : Nat} {t : Task} (ht : l.tasks[task]? = some t)
    (hunderway : t.phase.Underway) : l.result? task = none := by
  cases hresult : l.result? task with
  | none => rfl
  | some result =>
    obtain ⟨request, hfinished⟩ := result?_eq_some_iff.1 hresult
    rw [ht] at hfinished
    obtain rfl := Option.some.inj hfinished
    exact absurd hunderway (not_underway_finished result)

namespace Lined

/-- A task in line goes on once it has its turn. -/
theorem isSome_step_of_holds (hl : l.Lined) (e : Engine σ) {task : Nat} {t : Task}
    (ht : l.tasks[task]? = some t) (hline : t.phase.InLine)
    (hturn : l.turns.holds task = true) : (l.step e task).isSome = true := by
  obtain ⟨request, phase⟩ := t
  obtain ⟨script?, rfl⟩ : ∃ script?, phase = .inLine script? := hline
  cases script? with
  | some s => simp [Linker.step, ht, hturn]
  | none =>
    obtain ⟨c, rfl⟩ : ∃ c, request = .start c := (hl.ready task _ none ht rfl).1 rfl
    simp [Linker.step, ht, hturn]

/-- A task on its way goes on, unless it is in line without the turn. -/
theorem goesOn (hl : l.Lined) (e : Engine σ) {task : Nat} {t : Task}
    (ht : l.tasks[task]? = some t) (hunderway : t.phase.Underway)
    (hturn : t.phase.InLine → l.turns.holds task = true) : l.GoesOn e task := by
  rcases hunderway with hline | ⟨s, answer?, hphase⟩
  · exact Or.inl (hl.isSome_step_of_holds e ht hline (hturn hline))
  · cases answer? with
    | none => exact Or.inr (hl.out task t ht ⟨s, hphase⟩)
    | some verdict => exact Or.inl (by simp [Linker.step, ht, hphase])

/-- Whoever has a turn goes on. -/
theorem goesOn_of_holder (hl : l.Lined) (e : Engine σ) {holder : Party Nat}
    (hholder : holder ∈ l.turns.holders) :
    holder.handle < l.tasks.length ∧ l.result? holder.handle = none ∧
      l.GoesOn e holder.handle := by
  obtain ⟨t, ht, hunderway⟩ := hl.underway holder (Turns.mem_parties.2 (Or.inl hholder))
  obtain ⟨hlt, -⟩ := List.getElem?_eq_some_iff.1 ht
  refine ⟨hlt, result?_eq_none_of_underway ht hunderway, hl.goesOn e ht hunderway fun _ => ?_⟩
  exact Turns.holds_iff.2 ⟨holder, hholder, rfl⟩

/-- An unfinished task that cannot be carried on waits for the answer to its script, or for
the turn of another unfinished task that goes on. -/
theorem awaits (hl : l.Lined) {task : Nat} (htask : task < l.tasks.length)
    (hunfinished : l.result? task = none) (hstuck : l.step e task = none) :
    l.IsOut task ∨ ∃ other, other ≠ task ∧ l.AwaitsTurnOf task other ∧
      other < l.tasks.length ∧ l.result? other = none ∧ l.GoesOn e other := by
  have ht := List.getElem?_eq_getElem htask
  generalize l.tasks[task] = t at ht
  obtain ⟨request, phase⟩ := t
  cases phase with
  | asked => simp [Linker.step, ht] at hstuck
  | submitted s answer? =>
    cases answer? with
    | none => exact Or.inl (hl.out task _ ht ⟨s, rfl⟩)
    | some verdict => simp [Linker.step, ht] at hstuck
  | finished result => simp [result?, ht] at hunfinished
  | inLine script? =>
    obtain ⟨party, hparty, rfl⟩ := hl.stands task _ ht ⟨script?, rfl⟩
    rcases Turns.mem_parties.1 hparty with hholds | hwaits
    · -- Who holds the turn could be carried on.
      have hsome := hl.isSome_step_of_holds e ht ⟨script?, rfl⟩
        (Turns.holds_iff.2 ⟨party, hholds, rfl⟩)
      rw [hstuck] at hsome
      simp at hsome
    · obtain ⟨holder, hholder, hlock⟩ := hl.orderly.served party hwaits
      have hid := hl.orderly.id_eq hparty (Turns.mem_parties.2 (Or.inl hholder)) hlock.symm
      exact Or.inr ⟨holder.handle, hl.orderly.handle_ne hholder hwaits,
        ⟨party, hwaits, holder, hholder, rfl, rfl, hid⟩, hl.goesOn_of_holder e hholder⟩

/-- When nothing is left to do, all tasks are finished. -/
theorem isSome_result? (hl : l.Lined) (hquiet : l.IsQuiet e) {task : Nat}
    (htask : task < l.tasks.length) : (l.result? task).isSome = true := by
  obtain ⟨hsteps, hheld⟩ := hquiet
  have hidle : ∀ other, ¬ l.GoesOn e other := by
    rintro other (hsome | ⟨h, hmem, -⟩)
    · simp [hsteps other] at hsome
    · simp [hheld] at hmem
  cases hresult : l.result? task with
  | some result => rfl
  | none =>
    rcases hl.awaits htask hresult (hsteps task) with hout | ⟨other, -, -, -, -, hgoes⟩
    · exact absurd (Or.inr hout) (hidle task)
    · exact absurd hgoes (hidle other)

end Lined

/-! ## Passes -/

/-- Carrying a task on as far as it gets is a play. -/
theorem exists_play_poll (e : Engine σ) (l : Linker σ) (task : Nat) :
    ∃ moves, l.poll e task = l.play e moves := by
  fun_induction poll e l task with
  | case1 l hstep => exact ⟨[], rfl⟩
  | case2 l next hstep ih =>
    obtain ⟨moves, hmoves⟩ := ih
    refine ⟨.step task :: moves, ?_⟩
    rw [hmoves, play, play, List.foldl_cons, move, hstep, Option.getD_some]

/-- Carrying a task on lowers the load, unless the task cannot be carried on. -/
theorem poll_eq_or_load_lt (e : Engine σ) (l : Linker σ) (task : Nat) :
    (l.step e task = none ∧ l.poll e task = l) ∨ (l.poll e task).load < l.load := by
  fun_induction poll e l task with
  | case1 l hstep => exact Or.inl ⟨hstep, rfl⟩
  | case2 l next hstep ih =>
    have hlt := load_lt_of_step hstep
    rcases ih with ⟨-, hsame⟩ | hless
    · rw [hsame]
      exact Or.inr hlt
    · exact Or.inr (Nat.lt_trans hless hlt)

theorem exists_play_polls (e : Engine σ) (l : Linker σ) (tasks : List Nat) :
    ∃ moves, tasks.foldl (fun l task => l.poll e task) l = l.play e moves := by
  induction tasks generalizing l with
  | nil => exact ⟨[], rfl⟩
  | cons task tasks ih =>
    obtain ⟨first, hfirst⟩ := exists_play_poll e l task
    obtain ⟨rest, hrest⟩ := ih (l.poll e task)
    refine ⟨first ++ rest, ?_⟩
    rw [List.foldl_cons, hrest, hfirst, play_append]

/-- Carrying tasks on in order lowers the load, unless none of them can be carried on. -/
theorem polls_eq_or_load_lt (e : Engine σ) (l : Linker σ) (tasks : List Nat) :
    ((∀ task ∈ tasks, l.step e task = none) ∧
        tasks.foldl (fun l task => l.poll e task) l = l) ∨
      (tasks.foldl (fun l task => l.poll e task) l).load < l.load := by
  induction tasks generalizing l with
  | nil => exact Or.inl ⟨fun _ hmem => absurd hmem List.not_mem_nil, rfl⟩
  | cons task tasks ih =>
    rw [List.foldl_cons]
    rcases poll_eq_or_load_lt e l task with ⟨hnone, hsame⟩ | hless
    · rw [hsame]
      rcases ih l with ⟨hrest, hstay⟩ | hlt
      · refine Or.inl ⟨fun other hmem => ?_, hstay⟩
        rcases List.mem_cons.1 hmem with rfl | hmem
        · exact hnone
        · exact hrest other hmem
      · exact Or.inr hlt
    · rcases ih (l.poll e task) with ⟨-, hstay⟩ | hlt
      · rw [hstay]
        exact Or.inr hless
      · exact Or.inr (Nat.lt_trans hlt hless)

/-- When a pass does not lower the load, no task can be carried on. -/
theorem step_eq_none_of_pass (h : ¬ (l.pass e).load < l.load) (task : Nat) :
    l.step e task = none := by
  rcases polls_eq_or_load_lt e l (List.range l.tasks.length) with ⟨hnone, -⟩ | hlt
  · rcases Nat.lt_or_ge task l.tasks.length with hin | hout
    · exact hnone task (List.mem_range.2 hin)
    · simp [step, List.getElem?_eq_none hout]
  · exact absurd hlt h

/-- Repeated passes are a play, and they end where no task can be carried on. -/
theorem exists_play_settle (e : Engine σ) (l : Linker σ) :
    ∃ moves, l.settle e = l.play e moves ∧ (l.settle e).load ≤ l.load ∧
      ∀ task, (l.settle e).step e task = none := by
  fun_induction settle e l with
  | case1 l hless ih =>
    obtain ⟨first, hfirst⟩ := exists_play_polls e l (List.range l.tasks.length)
    obtain ⟨rest, hrest, hload, hnone⟩ := ih
    refine ⟨first ++ rest, ?_, Nat.le_trans hload (Nat.le_of_lt hless), hnone⟩
    rw [hrest, play_append, ← hfirst, pass]
  | case2 l hstay => exact ⟨[], rfl, Nat.le_refl _, step_eq_none_of_pass hstay⟩

/-! ## Completed scripts -/

theorem complete_eq_play (e : Engine σ) (l : Linker σ) (task : Nat) :
    l.complete e task = l.play e [.act task, .answer task] := rfl

/-- Once the engine has been let act, it has acted on the scripts of the task. -/
theorem exists_acted_act (e : Engine σ) {task : Nat} (hout : l.IsOut task) :
    ∃ h ∈ (l.act e task).held, h.task = task ∧ h.acted = true := by
  obtain ⟨h, hheld, htask⟩ := hout
  cases hnext : l.nextAct? task with
  | none =>
    rw [act_of_none hnext]
    have hnone := List.find?_eq_none.1 hnext h hheld
    exact ⟨h, hheld, htask, by simpa [htask] using hnone⟩
  | some first =>
    rw [act_of_some hnext]
    exact ⟨h.mark task, List.mem_map_of_mem hheld, by rw [Held.task_mark, htask],
      by simp [Held.mark, htask]⟩

/-- A task whose script was acted on is told. -/
theorem exists_answer_eq {task : Nat} {h : Held} (hheld : h ∈ l.held) (htask : h.task = task)
    (hacted : h.acted = true) : ∃ verdict, l.answer task =
      { l with
        held := l.held.filter fun h' => h'.task ≠ task
        tasks := l.tasks.modify task (Task.told verdict) } := by
  rw [answer]
  cases hfind : l.held.find? fun h => h.task = task && h.acted with
  | none =>
    have hnone := List.find?_eq_none.1 hfind h hheld
    simp [htask, hacted] at hnone
  | some first => exact ⟨first.verdict, rfl⟩

theorem load_told_lt {t : Task} (hwaits : t.phase.Waits) (verdict : Verdict) :
    (t.told verdict).phase.load < t.phase.load := by
  obtain ⟨s, hphase⟩ := hwaits
  rw [Task.told, hphase]
  simp only [Phase.load]
  split <;> decide

/-- A completed script lowers the load. -/
theorem load_complete_lt (hl : l.Lined) (e : Engine σ) {task : Nat} (hout : l.IsOut task) :
    (l.complete e task).load < l.load := by
  have hacted := hl.act e task
  obtain ⟨h, hheld, rfl, hdone⟩ := exists_acted_act e hout
  obtain ⟨t, ht, hwaits⟩ := hacted.ordered.waiting h hheld
  obtain ⟨verdict, heq⟩ := exists_answer_eq hheld rfl hdone
  have hsum := totalLoad_modify (Task.told verdict) t _ _ ht
  have hless := load_told_lt hwaits verdict
  have hsame : (l.act e h.task).load = l.load := by
    cases hnext : l.nextAct? h.task with
    | none => rw [act_of_none hnext]
    | some first =>
      rw [act_of_some hnext]
      rfl
  rw [complete, heq, ← hsame]
  change totalLoad _ < totalLoad _
  dsimp only
  omega

/-! ## Runs -/

theorem isOut_of_nextCompletion {completion : Completion} {task : Nat}
    (h : l.nextCompletion completion = some task) : l.IsOut task := by
  cases completion with
  | fifo =>
    obtain ⟨first, hfirst, htask⟩ := Option.map_eq_some_iff.1 h
    exact ⟨first, List.mem_of_mem_head? hfirst, htask⟩
  | lifo =>
    obtain ⟨last, hlast, htask⟩ := Option.map_eq_some_iff.1 h
    exact ⟨last, List.mem_of_getLast? hlast, htask⟩

theorem held_eq_nil_of_nextCompletion {completion : Completion}
    (h : l.nextCompletion completion = none) : l.held = [] := by
  cases completion with
  | fifo => exact List.head?_eq_none_iff.1 (Option.map_eq_none_iff.1 h)
  | lifo => exact List.getLast?_eq_none_iff.1 (Option.map_eq_none_iff.1 h)

/-- A run is a play, and it ends where nothing is left to do. -/
theorem exists_play_run (hl : l.Lined) (e : Engine σ) (completion : Completion) :
    ∃ moves, l.run e completion = l.play e moves ∧ (l.run e completion).IsQuiet e := by
  fun_induction run e completion l with
  | case1 l settled hnext =>
    obtain ⟨first, hfirst, -, hnone⟩ := exists_play_settle e l
    exact ⟨first, hfirst, hnone, held_eq_nil_of_nextCompletion hnext⟩
  | case2 l settled task hnext next hless ih =>
    obtain ⟨first, hfirst, -, -⟩ := exists_play_settle e l
    have hsettled : (l.settle e).Lined := hfirst ▸ hl.play e first
    obtain ⟨rest, hrest, hquiet⟩ := ih (hsettled.play e [.act task, .answer task])
    refine ⟨first ++ ([.act task, .answer task] ++ rest), ?_, hquiet⟩
    rw [hrest, play_append, play_append, ← hfirst, ← complete_eq_play]
  | case3 l settled task hnext next hstay =>
    -- A script that is completed lowers the load.
    obtain ⟨first, hfirst, hload, -⟩ := exists_play_settle e l
    have hsettled : (l.settle e).Lined := hfirst ▸ hl.play e first
    have hless := load_complete_lt hsettled e (isOut_of_nextCompletion hnext)
    exact absurd (Nat.lt_of_lt_of_le hless hload) hstay

/-- A run finishes all tasks. -/
theorem Lined.isSome_result?_run (hl : l.Lined) (e : Engine σ) (completion : Completion)
    {task : Nat} (htask : task < l.tasks.length) :
    ((l.run e completion).result? task).isSome = true := by
  obtain ⟨moves, hmoves, hquiet⟩ := exists_play_run hl e completion
  have hlined : (l.run e completion).Lined := hmoves ▸ hl.play e moves
  refine hlined.isSome_result? hquiet ?_
  rw [hmoves, length_tasks_play]
  exact htask

/-- In every play a task that is not finished and cannot be carried on waits for the answer
to its own script, or for a turn that another unfinished task has, which can be carried on or
waits for the answer to its own script.  So if no task can be carried on and no script waits
for an answer, all tasks are finished; and a run finishes all of them from wherever the play
has come to, whether it completes the oldest or the newest script first. -/
theorem nobody_left_waiting (e : Engine σ) (settings : Settings) (engine : σ)
    (requests : List Request) (moves : List Move) :
    (∀ task < requests.length,
        ((opening settings engine requests).play e moves).result? task = none →
        ((opening settings engine requests).play e moves).step e task = none →
        ((opening settings engine requests).play e moves).IsOut task ∨
          ∃ other < requests.length, other ≠ task ∧
            ((opening settings engine requests).play e moves).AwaitsTurnOf task other ∧
            ((opening settings engine requests).play e moves).result? other = none ∧
            ((opening settings engine requests).play e moves).GoesOn e other) ∧
      (((opening settings engine requests).play e moves).IsQuiet e →
        ∀ task < requests.length,
          (((opening settings engine requests).play e moves).result? task).isSome = true) ∧
      ∀ completion,
        (((opening settings engine requests).play e moves).run e completion).IsQuiet e ∧
          ∀ task < requests.length,
            ((((opening settings engine requests).play e moves).run e completion).result?
              task).isSome = true := by
  have hl := (lined_opening settings engine requests).play e moves
  have hlength : ((opening settings engine requests).play e moves).tasks.length =
      requests.length := by
    rw [length_tasks_play, ← length_requests, requests_opening]
  generalize (opening settings engine requests).play e moves = l at hl hlength ⊢
  rw [← hlength]
  refine ⟨fun task htask hunfinished hstuck => ?_,
    fun hquiet task htask => hl.isSome_result? hquiet htask,
    fun completion => ⟨?_, fun task htask => hl.isSome_result?_run e completion htask⟩⟩
  · rcases hl.awaits htask hunfinished hstuck with hout | ⟨other, hne, hturn, hin, hrest⟩
    · exact Or.inl hout
    · exact Or.inr ⟨other, hin, hne, hturn, hrest⟩
  · obtain ⟨-, -, hquiet⟩ := exists_play_run hl e completion
    exact hquiet

end Wiring.Linker
