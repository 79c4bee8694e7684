import Wiring.Proofs.Linker.Handed
import Wiring.Proofs.Synthesis.Refusals

/-!
# The life of a request

A finished request has one of four stories, `Story`: it was refused, it had nothing to
submit, it submitted one script, or it was a start of an unknown type that submitted a
second script for the bindings of its type.  A story holds the events of the request, what
the engine received from it, and its result.

`Life` says where a request stands in its story at each phase.  What a step of its task
does to the events and handovers of a request is said here for each act, without regard to
other tasks.
-/

namespace Wiring

/-- Whether a request is to remove something. -/
def Request.isRemoval : Request → Bool
  | .stopByType _ | .stop _ => true
  | .start _ | .update _ _ _ | .push _ => false

namespace Submission

/-- A script is for what a request asks for. -/
structure Serves (s : Submission) (request : Request) : Prop where
  operation : s.operation = request.operation
  component : s.component? = request.turn?
  removal : s.rejection.isRemoval = request.isRemoval

/-- The first script of a request.  Bindings are to follow only for a start whose type was
unknown when the engine received the script. -/
structure Opens (s : Submission) (settings : Settings) (request : Request) (h : Handover) :
    Prop extends s.Serves request where
  text : h.text = s.text
  deferred : ∀ c, s.deferred? = some c → request = .start c ∧
    ∃ script, (⟨h.model, settings⟩ : Synthesis).planStart c = .ok (.script script false) ∧
      s.text = script.text

/-- The second script of the start of a component, for the bindings of its type. -/
structure Follows (s : Submission) (settings : Settings) (c : Component) (h : Handover) :
    Prop where
  text : h.text = s.text
  operation : s.operation = .deferredBinding
  component : s.component? = some c.id
  removal : s.rejection.isRemoval = false
  last : s.deferred? = none
  plan : ∃ script, (⟨h.model, settings⟩ : Synthesis).planDeferred c = .script script ∧
    s.text = script.text

end Submission

/-- A finished request: its events, what the engine received from it, and its result. -/
inductive Story (settings : Settings) (task : Nat) (request : Request) :
    List (Event Nat) → List Handover → Except Failure Bool → Prop
  | refused {failure : Failure} (hrefusal : failure.IsRefusal) :
    Story settings task request [] [] (.error failure)
  | skipped (reason : String) :
    Story settings task request
      [⟨task, request.operation, request.turn?, .skipped reason⟩] [] (.ok false)
  | single {s : Submission} {h : Handover} (hopens : s.Opens settings request h) :
    Story settings task request
      [s.announced task, s.reported task h.verdict] [h] (s.outcome h.verdict)
  | bound {s s' : Submission} {h h' : Handover} {c : Component}
      (hopens : s.Opens settings request h) (hdeferred : s.deferred? = some c)
      (haccept : h.verdict = .accept) (hfollows : s'.Follows settings c h') :
    Story settings task request
      [s.announced task, s.reported task .accept, s'.announced task,
        s'.reported task h'.verdict] [h, h'] (s'.outcome h'.verdict)

/-- Where a request stands: its events and what the engine received from it, by the phase
of its task. -/
inductive Life (settings : Settings) (task : Nat) (request : Request) :
    List (Event Nat) → List Handover → Phase → Prop
  | asked : Life settings task request [] [] .asked
  | inLine {script? : Option Submission}
      (hscript : ∀ s, script? = some s → s.Serves request ∧ s.deferred? = none) :
    Life settings task request [] [] (.inLine script?)
  | first {s : Submission} {h : Handover} {answer? : Option Verdict}
      (hopens : s.Opens settings request h)
      (hanswer : ∀ verdict, answer? = some verdict → verdict = h.verdict) :
    Life settings task request [s.announced task] [h] (.submitted s answer?)
  | second {s s' : Submission} {h h' : Handover} {c : Component} {answer? : Option Verdict}
      (hopens : s.Opens settings request h) (hdeferred : s.deferred? = some c)
      (haccept : h.verdict = .accept) (hfollows : s'.Follows settings c h')
      (hanswer : ∀ verdict, answer? = some verdict → verdict = h'.verdict) :
    Life settings task request
      [s.announced task, s.reported task .accept, s'.announced task] [h, h']
      (.submitted s' answer?)
  | finished {events : List (Event Nat)} {handed : List Handover}
      {result : Except Failure Bool}
      (hstory : Story settings task request events handed result) :
    Life settings task request events handed (.finished result)

namespace Life

open Linker

variable {σ : Type} {e : Engine σ} {l : Linker σ} {settings : Settings} {task : Nat}
  {t : Task} {events : List (Event Nat)} {handed : List Handover}

theorem story {request : Request} {result : Except Failure Bool}
    (hlife : Life settings task request events handed (.finished result)) :
    Story settings task request events handed result := by
  cases hlife with
  | finished hstory => exact hstory

/-- A task that fails without a script was refused. -/
theorem fail (hlife : Life settings task t.request events handed t.phase) {failure : Failure}
    (hfails : Fails e l t failure) :
    Life settings task t.request events handed (.finished (.error failure)) := by
  cases hfails with
  | start hvalid =>
    cases hlife
    exact .finished (.refused (Component.isRefusal_validate hvalid))
  | startInTurn hplan =>
    cases hlife
    exact .finished (.refused (Synthesis.isRefusal_planStart hplan))
  | stop hscript =>
    cases hlife
    exact .finished (.refused (Synthesis.isRefusal_removeScript hscript))
  | update hscript =>
    cases hlife
    exact .finished (.refused (Synthesis.isRefusal_updateScript hscript))

theorem skip (hlife : Life settings task t.request events handed t.phase) {reason : String}
    (hskips : Skips e l t reason) :
    Life settings task t.request
      (events ++ [⟨task, t.request.operation, t.request.turn?, .skipped reason⟩]) handed
      (.finished (.ok false)) := by
  cases hskips with
  | removal =>
    cases hlife
    exact .finished (.skipped _)
  | pushed =>
    cases hlife
    exact .finished (.skipped _)
  | start =>
    cases hlife
    exact .finished (.skipped _)

theorem join (hlife : Life settings task t.request events handed t.phase) {id : String}
    {script? : Option Submission} (hjoins : Joins e l t id script?) :
    Life settings task t.request events handed (.inLine script?) := by
  cases hjoins with
  | start =>
    cases hlife
    exact .inLine fun s hs => by simp at hs
  | stop =>
    cases hlife
    exact .inLine fun s hs => Option.some.inj hs ▸ ⟨⟨rfl, rfl, rfl⟩, rfl⟩
  | update =>
    cases hlife
    exact .inLine fun s hs => Option.some.inj hs ▸ ⟨⟨rfl, rfl, rfl⟩, rfl⟩

/-- The answer to the last script is the end of the story. -/
theorem conclude (hlife : Life settings task t.request events handed t.phase) {s : Submission}
    {verdict : Verdict} (hphase : t.phase = .submitted s (some verdict)) :
    Life settings task t.request (events ++ [s.reported task verdict]) handed
      (.finished (s.outcome verdict)) := by
  rw [hphase] at hlife
  cases hlife with
  | first hopens hanswer =>
    rw [hanswer verdict rfl]
    exact .finished (.single hopens)
  | second hopens hdeferred haccept hfollows hanswer =>
    rw [hanswer verdict rfl]
    exact .finished (.bound hopens hdeferred haccept hfollows)

theorem told {request : Request} {s : Submission}
    (hlife : Life settings task request events handed (.submitted s none)) {verdict : Verdict}
    (hlast : handed.getLast?.map (·.verdict) = some verdict) :
    Life settings task request events handed (.submitted s (some verdict)) := by
  cases hlife with
  | first hopens =>
    exact .first hopens fun v hv => (Option.some.inj hv).symm.trans (Option.some.inj hlast).symm
  | second hopens hdeferred haccept hfollows =>
    exact .second hopens hdeferred haccept hfollows fun v hv =>
      (Option.some.inj hv).symm.trans (Option.some.inj hlast).symm

/-- A script is announced, after the report of the answer to the one before. -/
theorem submit (hlife : Life l.settings task t.request events handed t.phase) {s : Submission}
    (hsubmits : Submits e l task t s) :
    Life l.settings task t.request (events ++ (t.report task ++ [s.announced task]))
      (handed ++ [l.received e task s]) (.submitted s none) := by
  have hnone : ∀ verdict, (none : Option Verdict) = some verdict →
      verdict = (l.received e task s).verdict := by simp
  cases hsubmits with
  | removal =>
    cases hlife
    exact .first ⟨⟨rfl, rfl, rfl⟩, rfl, by simp [Submission.ofScript]⟩ hnone
  | pushed =>
    cases hlife
    exact .first ⟨⟨rfl, rfl, rfl⟩, rfl, by simp⟩ hnone
  | ready hturn =>
    cases hlife with
    | inLine hscript =>
      obtain ⟨hserves, hlast⟩ := hscript s rfl
      exact .first ⟨hserves, rfl, by simp [hlast]⟩ hnone
  | @start c script typeResolved hturn hplan =>
    cases hlife
    refine .first ⟨⟨rfl, rfl, rfl⟩, rfl, fun c' hc' => ?_⟩ hnone
    -- Bindings are only to follow when the type was not found.
    cases typeResolved with
    | true => simp [Submission.ofScript] at hc'
    | false =>
      obtain rfl : c = c' := by simpa [Submission.ofScript] using hc'
      exact ⟨rfl, script, hplan, rfl⟩
  | @bindings request before c script hdeferred hplan =>
    cases hlife with
    | first hopens hanswer =>
      refine .second hopens hdeferred (hanswer _ rfl).symm ?_ hnone
      exact ⟨rfl, rfl, rfl, rfl, rfl, script, hplan, rfl⟩
    | second hopens hdeferred' haccept hfollows =>
      -- Nothing follows the second script.
      rw [hfollows.last] at hdeferred
      simp at hdeferred

end Life

end Wiring
