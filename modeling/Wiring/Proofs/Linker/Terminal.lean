import Wiring.Proofs.Event.Waiting
import Wiring.Proofs.Linker.Account

/-!
# Answers and last events

An answer to a script counts as the end of its request.  It is the end when the request
submits one script, and so for every request but a start.  A start of an unknown type may
submit a second script, and then the answer to the first one is not the last event of the
request: who waits for the request gets this answer and not the last event,
`last_of_waitFor_iff`.
-/

namespace Wiring

open Linker

/-- The last event of a request that submitted something is an answer.  It is the first
answer exactly when there was one script, as there is for every request but a start. -/
theorem Story.exists_last {settings : Settings} {task : Nat} {request : Request}
    {events : List (Event Nat)} {handed : List Handover} {result : Except Failure Bool}
    (hstory : Story settings task request events handed result) (hsent : handed ≠ []) :
    ∃ before last, events = before ++ [last] ∧ last.isTerminal = true ∧
      ((∀ event ∈ before, event.isTerminal = false) ↔ handed.length = 1) ∧
      (events.find? Event.isTerminal = some last ↔ handed.length = 1) ∧
      (handed.length = 1 ∨ ∃ c, request = .start c) := by
  cases hstory with
  | refused => exact absurd rfl hsent
  | skipped => exact absurd rfl hsent
  | @single s h hopens =>
    refine ⟨[s.announced task], s.reported task h.verdict, rfl,
      s.isTerminal_reported task _, ?_, ?_, Or.inl rfl⟩
    · simp [Submission.isTerminal_announced]
    · simp [Submission.isTerminal_announced, Submission.isTerminal_reported]
  | @bound s s' h h' c hopens hdeferred haccept hfollows =>
    obtain ⟨hrequest, -⟩ := hopens.deferred c hdeferred
    -- The first answer is about the start and the last one about the bindings.
    have hdiffers : s.reported task .accept ≠ s'.reported task h'.verdict := by
      intro hsame
      have hoperation : s.operation = s'.operation := congrArg Event.operation hsame
      rw [hopens.operation, hfollows.operation, hrequest] at hoperation
      simp [Request.operation] at hoperation
    refine ⟨[s.announced task, s.reported task .accept, s'.announced task],
      s'.reported task h'.verdict, rfl, s'.isTerminal_reported task _, ?_, ?_,
      Or.inr ⟨c, hrequest⟩⟩
    · simp [Submission.isTerminal_reported]
    · simp [Submission.isTerminal_announced, Submission.isTerminal_reported, hdiffers]

namespace Linker

variable {σ : Type}

/-- The last event of a finished request that submitted something is an answer.  It is the
only one, and a listener that has not fallen behind gets it, exactly when the request
submitted one script. -/
theorem last_of_waitFor_iff (e : Engine σ) (settings : Settings) (engine : σ)
    (requests : List Request) (moves : List Move) {task : Nat} {result : Except Failure Bool}
    (hresult :
      ((opening settings engine requests).play e moves).result? task = some result)
    (hsent : ((opening settings engine requests).play e moves).scriptsOf task ≠ []) :
    ∃ before last,
      ((opening settings engine requests).play e moves).eventsOf task = before ++ [last] ∧
      last.isTerminal = true ∧
      ((∀ event ∈ before, event.isTerminal = false) ↔
        (((opening settings engine requests).play e moves).scriptsOf task).length = 1) ∧
      (∀ (bus : Bus (Event Nat)) (listener : Listener),
        bus.published = ((opening settings engine requests).play e moves).events →
        listener.KeepsUp bus → listener.Precedes bus task →
        ((listener.waitFor bus task).1 = .event last ↔
          (((opening settings engine requests).play e moves).scriptsOf task).length = 1)) ∧
      ((((opening settings engine requests).play e moves).scriptsOf task).length = 1 ∨
        ∃ c, requests[task]? = some (.start c)) := by
  obtain ⟨request, hrequest, hscripts, hagrees⟩ :=
    agrees_of_result e settings engine requests moves hresult
  rw [hscripts] at hsent ⊢
  rw [List.length_map]
  obtain ⟨before, last, hevents, hterminal, honly, hfirst, hstart⟩ :=
    hagrees.story.exists_last (by simpa using hsent)
  refine ⟨before, last, hevents, hterminal, honly, ?_, ?_⟩
  · intro bus listener hpublished hkeeps hprecedes
    rw [Listener.waitFor_eq_event_iff hkeeps hprecedes, hpublished]
    exact hfirst
  · rw [hrequest]
    exact hstart.imp_right fun ⟨c, hc⟩ => ⟨c, congrArg some hc⟩

theorem last_of_waitFor_iff_late :
    (latePlay []).result? 0 = some (.ok true) ∧ (latePlay []).scriptsOf 0 ≠ [] ∧
      ∃ before last, (latePlay []).eventsOf 0 = before ++ [last] ∧ last.isTerminal = true ∧
        ((∀ event ∈ before, event.isTerminal = false) ↔
          ((latePlay []).scriptsOf 0).length = 1) ∧
        (∀ (bus : Bus (Event Nat)) (listener : Listener),
          bus.published = (latePlay []).events → listener.KeepsUp bus →
          listener.Precedes bus 0 →
          ((listener.waitFor bus 0).1 = .event last ↔
            ((latePlay []).scriptsOf 0).length = 1)) ∧
        (((latePlay []).scriptsOf 0).length = 1 ∨ ∃ c, lateRequests[0]? = some (.start c)) := by
  have hresult : (latePlay []).result? 0 = some (.ok true) := by decide +kernel
  have hsent : (latePlay []).scriptsOf 0 ≠ [] := by decide +kernel
  exact ⟨hresult, hsent, last_of_waitFor_iff Plant.engine _ _ _ _ hresult hsent⟩

/-- The bus of the play, and a listener from its beginning. -/
def lateBus : Bus (Event Nat) where
  capacity := Bus.defaultCapacity
  published := (latePlay []).events

/-- The switch is started and then bound: there are two answers, and who waits for the
request gets the first one. -/
theorem waitFor_late_ne_last :
    (latePlay []).result? 0 = some (.ok true) ∧
      (latePlay []).eventsOf 0 =
        [⟨0, .start, some "s1", .submitted 1⟩, ⟨0, .start, some "s1", .applied⟩,
          ⟨0, .deferredBinding, some "s1", .submitted 3⟩,
          ⟨0, .deferredBinding, some "s1", .applied⟩] ∧
      ((latePlay []).eventsOf 0).countP Event.isTerminal = 2 ∧
      Listener.KeepsUp ⟨0⟩ lateBus ∧ Listener.Precedes ⟨0⟩ lateBus 0 ∧
      (Listener.waitFor ⟨0⟩ lateBus 0).1 = .event ⟨0, .start, some "s1", .applied⟩ := by
  have hkeeps : Listener.KeepsUp ⟨0⟩ lateBus := by decide +kernel
  have hprecedes : Listener.Precedes ⟨0⟩ lateBus 0 := by decide +kernel
  refine ⟨by decide +kernel, by decide +kernel, by decide +kernel, hkeeps, hprecedes, ?_⟩
  apply (Listener.waitFor_eq_event_iff hkeeps hprecedes).2
  decide +kernel

end Linker

end Wiring
