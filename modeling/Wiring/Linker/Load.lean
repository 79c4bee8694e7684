import Wiring.Linker.Step

/-!
# The load of a linker

The load is an upper bound on the steps that the tasks of a linker can have before
them.  Every step lowers it, `load_lt_of_step`, so no task can be carried on
without end: a start takes at most two scripts, every other request at most one.
-/

namespace Wiring

/-- An upper bound on the steps that a task has before it. -/
def Phase.load : Phase → Nat
  | .asked => 6
  | .inLine _ => 5
  | .submitted s none => if s.deferred?.isSome then 4 else 2
  | .submitted s (some _) => if s.deferred?.isSome then 3 else 1
  | .finished _ => 0

namespace Linker

variable {σ : Type}

/-- The load of tasks together. -/
def totalLoad : List Task → Nat
  | [] => 0
  | t :: rest => t.phase.load + totalLoad rest

/-- The load of all tasks together. -/
def load (l : Linker σ) : Nat := totalLoad l.tasks

/-- Changing one task changes the load of all by as much as it changes the load of
that task. -/
theorem totalLoad_modify (change : Task → Task) (t : Task) :
    ∀ (tasks : List Task) (i : Nat), tasks[i]? = some t →
      totalLoad (tasks.modify i change) + t.phase.load =
        totalLoad tasks + (change t).phase.load
  | [], i, ht => by simp at ht
  | first :: rest, 0, ht => by
    have hfirst : first = t := by simpa using ht
    subst hfirst
    simp only [List.modify_zero_cons, totalLoad]
    omega
  | first :: rest, i + 1, ht => by
    have hrest := totalLoad_modify change t rest i (by simpa using ht)
    simp only [List.modify_succ_cons, totalLoad]
    omega

/-- A task has been carried on to a phase with a load below a bound, and no other
task has changed. -/
def CarriedOn (task : Nat) (bound : Nat) (l next : Linker σ) : Prop :=
  ∃ phase : Phase, next.tasks = (l.setPhase task phase).tasks ∧ phase.load < bound

/-- Carrying a task on to a phase of smaller load lowers the load. -/
theorem CarriedOn.load_lt {task : Nat} {l next : Linker σ} {t : Task}
    (hnext : CarriedOn task t.phase.load l next) (ht : l.tasks[task]? = some t) :
    next.load < l.load := by
  obtain ⟨phase, htasks, hphase⟩ := hnext
  have hsum := totalLoad_modify (fun t => { t with phase }) t l.tasks task ht
  have hload : next.load = (l.setPhase task phase).load := by simp [load, htasks]
  have hset : (l.setPhase task phase).load + t.phase.load = l.load + phase.load := hsum
  omega

/-- Publishing an event changes no task. -/
theorem tasks_publish (l : Linker σ) (task : Nat) (operation : Operation)
    (component? : Option String) (status : Status) :
    (l.publish task operation component? status).tasks = l.tasks := rfl

/-- Giving notices changes no task. -/
theorem tasks_note (l : Linker σ) (task : Nat) (notices : List Notice) :
    (l.note task notices).tasks = l.tasks := rfl

/-- Whether a task has been carried on depends on the tasks alone. -/
theorem CarriedOn.of_tasks {task bound : Nat} {l l' next : Linker σ}
    (htasks : l'.tasks = l.tasks) (hnext : CarriedOn task bound l' next) :
    CarriedOn task bound l next := by
  obtain ⟨phase, hphase, hbound⟩ := hnext
  exact ⟨phase, by rw [hphase, setPhase, setPhase, htasks], hbound⟩

/-- A finished task has no load. -/
theorem carriedOn_finish (l : Linker σ) (task : Nat) (result : Except Failure Bool)
    {bound : Nat} (hbound : 0 < bound) : CarriedOn task bound l (l.finish task result) :=
  ⟨.finished result, rfl, hbound⟩

/-- A task with nothing to submit has no load. -/
theorem carriedOn_skip (l : Linker σ) (task : Nat) (operation : Operation)
    (component? : Option String) (reason : String) {bound : Nat} (hbound : 0 < bound) :
    CarriedOn task bound l (l.skip task operation component? reason) :=
  ⟨.finished (.ok false), rfl, hbound⟩

/-- A task in line has the load of the script that it may yet submit. -/
theorem carriedOn_joinLine (l : Linker σ) (task : Nat) (id : String)
    (script? : Option Submission) : CarriedOn task 6 l (l.joinLine task id script?) :=
  ⟨.inLine script?, rfl, by simp [Phase.load]⟩

/-- A task that has submitted a script waits for its answer. -/
theorem carriedOn_submit (e : Engine σ) (l : Linker σ) (task : Nat) (s : Submission)
    {bound : Nat} (hbound : (Phase.submitted s none).load < bound) :
    CarriedOn task bound l (l.submit e task s) :=
  ⟨.submitted s none, rfl, hbound⟩

/-- A submitted script leaves at most four steps, and two when no bindings are to
follow. -/
theorem load_submitted_le (s : Submission) : (Phase.submitted s none).load ≤ 4 := by
  simp only [Phase.load]
  split <;> omega

/-- The first step lowers the load of a task. -/
theorem carriedOn_begin (e : Engine σ) (l : Linker σ) (task : Nat) (request : Request) :
    CarriedOn task 6 l (l.begin e task request) := by
  have hsubmitted := load_submitted_le
  cases request with
  | start component =>
    simp only [begin]
    split
    · exact carriedOn_finish _ _ _ (by omega)
    · exact carriedOn_joinLine _ _ _ _
  | stopByType types =>
    simp only [begin]
    split
    · exact carriedOn_skip _ _ _ _ _ (by omega)
    · exact carriedOn_submit _ _ _ _ (Nat.lt_of_le_of_lt (hsubmitted _) (by omega))
  | stop id =>
    simp only [begin]
    split
    · exact .of_tasks (tasks_note l task _) (carriedOn_finish _ _ _ (by omega))
    · exact .of_tasks (tasks_note l task _) (carriedOn_joinLine _ _ _ _)
  | update id key value =>
    simp only [begin]
    split
    · exact carriedOn_finish _ _ _ (by omega)
    · exact carriedOn_joinLine _ _ _ _
  | push text =>
    simp only [begin]
    split
    · exact carriedOn_skip _ _ _ _ _ (by omega)
    · exact .of_tasks (tasks_note l task _)
        (carriedOn_submit _ _ _ _ (Nat.lt_of_le_of_lt (hsubmitted _) (by omega)))

/-- The step of a start in its turn lowers the load of the task. -/
theorem carriedOn_startInTurn (e : Engine σ) (l : Linker σ) (task : Nat) (c : Component) :
    CarriedOn task 5 l (l.startInTurn e task c) := by
  simp only [startInTurn]
  refine .of_tasks (tasks_note l task ((l.synthesis e).planStartNotices c)) ?_
  split
  · exact carriedOn_finish _ _ _ (by omega)
  · exact carriedOn_skip _ _ _ _ _ (by omega)
  · exact carriedOn_submit _ _ _ _ (Nat.lt_of_le_of_lt (load_submitted_le _) (by omega))

/-- After an applied script a task has at most one script before it, and none when
no bindings are to follow. -/
theorem carriedOn_afterApplied (e : Engine σ) (l : Linker σ) (task : Nat)
    (deferred? : Option Component) :
    CarriedOn task (if deferred?.isSome then 3 else 1) l (l.afterApplied e task deferred?) := by
  cases deferred? with
  | none => exact carriedOn_finish _ _ _ (Nat.succ_pos 0)
  | some c =>
    unfold afterApplied
    rw [Option.isSome_some, if_pos rfl]
    dsimp only
    refine .of_tasks (tasks_note l task ((l.synthesis e).planDeferredNotices c)) ?_
    split
    · exact carriedOn_finish _ _ _ (Nat.succ_pos 2)
    · exact carriedOn_submit _ _ _ _ (Nat.lt_succ_self 2)

/-- Heeding an answer lowers the load of the task. -/
theorem carriedOn_heed (e : Engine σ) (l : Linker σ) (task : Nat) (s : Submission)
    (verdict : Verdict) :
    CarriedOn task (Phase.submitted s (some verdict)).load l (l.heed e task s verdict) := by
  have hpos : 0 < (Phase.submitted s (some verdict)).load := by
    simp only [Phase.load]
    split <;> omega
  cases verdict with
  | reject =>
    exact .of_tasks (tasks_note l task _)
      (.of_tasks (tasks_publish _ task _ _ _) (carriedOn_finish _ _ _ hpos))
  | drop =>
    exact .of_tasks (tasks_note l task _)
      (.of_tasks (tasks_publish _ task _ _ _) (carriedOn_finish _ _ _ hpos))
  | accept =>
    exact .of_tasks (tasks_publish l task _ _ _) (carriedOn_afterApplied e _ task s.deferred?)

/-- Every step lowers the load. -/
theorem load_lt_of_step {e : Engine σ} {l next : Linker σ} {task : Nat}
    (hstep : l.step e task = some next) : next.load < l.load := by
  cases ht : l.tasks[task]? with
  | none => simp [step, ht] at hstep
  | some t =>
    refine CarriedOn.load_lt ?_ ht
    cases hphase : t.phase with
    | asked =>
      simp only [step, ht, hphase, Option.some.injEq] at hstep
      exact hstep ▸ carriedOn_begin e l task t.request
    | inLine script? =>
      simp only [step, ht, hphase] at hstep
      split at hstep
      · split at hstep
        · rw [Option.some.injEq] at hstep
          exact hstep ▸ carriedOn_submit _ _ _ _
            (Nat.lt_of_le_of_lt (load_submitted_le _) (by simp [Phase.load]))
        · rw [Option.some.injEq] at hstep
          exact hstep ▸ carriedOn_startInTurn _ _ _ _
        · simp at hstep
      · simp at hstep
    | submitted s answer? =>
      cases answer? with
      | none => simp [step, ht, hphase] at hstep
      | some verdict =>
        simp only [step, ht, hphase, Option.some.injEq] at hstep
        exact hstep ▸ carriedOn_heed e l task s verdict
    | finished result => simp [step, ht, hphase] at hstep

end Linker

end Wiring
