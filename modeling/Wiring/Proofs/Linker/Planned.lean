import Wiring.Proofs.Linker.LoneStart

/-!
# Planned starts

A start can be planned without asking for it.  Planning goes its own way to the script, and it
is the way of a start that is made from the same state of the model, `plan_eq_planStart`.  So the
plan answers what the start does first, `predicts_plan`: it fails as the start fails before
anything is submitted, it has no script where the start is skipped, and it has the script that the
start submits first.  What comes of that script is up to the engine.

Planning changes nothing but the notices; and when nothing else is going on, the start does what
the plan has said, whatever the engine decides on its scripts, `finishes_start_planned`.
-/

namespace Wiring

/-! ## Planning and starting -/

/-- The script of a plan, if there is anything to do. -/
def StartPlan.script? : StartPlan → Option Script
  | .running => none
  | .script operations _ => some operations

namespace Synthesis

/-- Planning a start and starting come to the same script and the same failures, each by itself. -/
theorem plan_eq_planStart (s : Synthesis) (c : Component) :
    s.plan c = c.validate.bind fun _ => (s.planStart c).map StartPlan.script? := by
  unfold plan planStart isRunning
  cases c.validate with
  | error failure => rfl
  | ok valid =>
    cases s.model.findComponent s.node c.id with
    | some component => rfl
    | none =>
      simp only [Option.isSome_none, Bool.false_eq_true, if_false]
      cases s.startScript (c.resolve s.model).component <;> rfl

/-- Planning gives the notices that starting gives. -/
theorem planNotices_eq_planStartNotices {s : Synthesis} {c : Component}
    (h : c.validate = .ok ()) : s.planNotices c = s.planStartNotices c := by
  rw [planNotices, h]
  rfl

end Synthesis

/-! ## What a plan says of the start -/

/-- What an answer to planning the start of a component says of the start: what it publishes
and hands over, and what it comes to. -/
structure Predicts (task : Nat) (c : Component) (answer : Except Failure (Option Script))
    (events : List (Event Nat)) (scripts : List (Nat × String))
    (result : Except Failure Bool) : Prop where
  /-- Nothing is to be submitted when the start is skipped. -/
  skipped : answer = .ok none ↔ result = .ok false
  skip : result = .ok false →
    events = [⟨task, .start, some c.id, .skipped "already running"⟩] ∧ scripts = []
  /-- There is a script when the start submits one. -/
  submitted : (∃ script, answer = .ok (some script)) ↔ scripts ≠ []
  first : ∀ script : Script, answer = .ok (some script) →
    events.head? = some ⟨task, .start, some c.id, .submitted script.length⟩ ∧
      scripts.head? = some (task, script.text)
  /-- Planning fails as the start fails before it submits anything. -/
  failed : ∀ failure, answer = .error failure ↔ result = .error failure ∧ scripts = []
  /-- A start that fails before that publishes nothing. -/
  refused : scripts = [] → result ≠ .ok false → events = []

namespace Predicts

variable {task : Nat} {c : Component} {events : List (Event Nat)}
  {scripts : List (Nat × String)} {result : Except Failure Bool}

theorem of_failed (task : Nat) (c : Component) (failure : Failure) :
    Predicts task c (.error failure) [] [] (.error failure) where
  skipped := by simp
  skip := by simp
  submitted := by simp
  first := by simp
  failed := by simp
  refused := by simp

theorem of_skipped (task : Nat) (c : Component) :
    Predicts task c (.ok none)
      [⟨task, .start, some c.id, .skipped "already running"⟩] [] (.ok false) where
  skipped := by simp
  skip := by simp
  submitted := by simp
  first := by simp
  failed := by simp
  refused := by simp

/-- A start that submits a script is not skipped. -/
theorem of_submitted {script : Script} (hresult : result ≠ .ok false) :
    Predicts task c (.ok (some script))
      (⟨task, .start, some c.id, .submitted script.length⟩ :: events)
      ((task, script.text) :: scripts) result where
  skipped := by simp [hresult]
  skip := fun h => absurd h hresult
  submitted := by simp
  first := by simp
  failed := by simp
  refused := by simp

end Predicts

namespace Course

variable {σ : Type}

/-- Planning a start says what the start does first. -/
theorem predicts_plan (e : Engine σ) (settings : Settings) (task : Nat) (engine : σ)
    (c : Component) :
    Predicts task c ((⟨e.model engine, settings⟩ : Synthesis).plan c)
      (ofRequest e settings task engine (.start c)).events
      (ofRequest e settings task engine (.start c)).scripts
      (ofRequest e settings task engine (.start c)).result := by
  rw [Synthesis.plan_eq_planStart]
  simp only [ofRequest]
  cases c.validate with
  | error failure => exact .of_failed task c failure
  | ok valid =>
    simp only [inTurn, Except.bind]
    cases (⟨e.model engine, settings⟩ : Synthesis).planStart c with
    | error failure => exact .of_failed task c failure
    | ok plan =>
      cases plan with
      | running => exact .of_skipped task c
      | script script typeResolved =>
        exact .of_submitted (result_sent_ne (startSubmission settings c script typeResolved))

end Course

namespace Linker

open Course

variable {σ : Type}

/-- Planning a start submits nothing and publishes nothing, and says what the start does when
nothing else is going on. -/
theorem finishes_start_planned {l : Linker σ} (hrest : l.AtRest) (hlined : l.Lined)
    (e : Engine σ) (c : Component) :
    (∃ notices, (l.plan e c).2 = { l with notices := l.notices ++ notices }) ∧
      Finishes e (l.ask [.start c]) l.tasks.length fun result after => ∃ events scripts,
        after.events = l.events ++ events ∧ after.scripts = l.scripts ++ scripts ∧
          Predicts l.tasks.length c (l.plan e c).1 events scripts result := by
  refine ⟨⟨_, rfl⟩, (finishes_ask hrest hlined e (.start c)).imp fun result after hserved => ?_⟩
  have hcourse := hserved.course
  have hresult : (ofRequest e l.settings l.tasks.length l.engine (.start c)).result = result :=
    congrArg Course.result hcourse
  refine ⟨_, _, (congrArg Course.events hcourse).symm, (congrArg Course.scripts hcourse).symm, ?_⟩
  rw [← hresult]
  exact predicts_plan e l.settings l.tasks.length l.engine c

/-- A linker that has not done anything yet, whose engine will reject the first script. -/
def freshLinker : Linker Plant where
  settings := .forNode "home1"
  engine := latePlant [.reject]

theorem finishes_start_planned_rejected :
    freshLinker.AtRest ∧ freshLinker.Lined ∧
      (freshLinker.plan Plant.engine lateSwitch).1 =
        .ok (some [.addComponent ⟨"home1", "s1"⟩ "org.activehome.Switch"]) ∧
      (∃ notices, (freshLinker.plan Plant.engine lateSwitch).2 =
        { freshLinker with notices := freshLinker.notices ++ notices }) ∧
      Finishes Plant.engine (freshLinker.ask [.start lateSwitch]) 0 fun result after =>
        ∃ events scripts, after.events = [] ++ events ∧ after.scripts = [] ++ scripts ∧
          Predicts 0 lateSwitch (freshLinker.plan Plant.engine lateSwitch).1 events scripts
            result := by
  have hrest : freshLinker.AtRest := ⟨fun i t ht => by simp [freshLinker] at ht, rfl⟩
  have hlined : freshLinker.Lined := lined_opening (.forNode "home1") (latePlant [.reject]) []
  exact ⟨hrest, hlined, by decide +kernel,
    finishes_start_planned hrest hlined Plant.engine lateSwitch⟩

end Linker

end Wiring
