import Wiring.Event.Bus

/-!
# Waiting for an answer

A listener that has not fallen behind and that was there before the first event of a
request gets the first answer of the request, `waitFor_eq_event_iff`, whatever is
published for other requests in between.
-/

namespace Wiring.Listener

variable {ε ρ : Type}

/-- Nothing that the listener has not read is lost. -/
def KeepsUp (l : Listener) (bus : Bus ε) : Prop := bus.dropped ≤ l.position

instance (l : Listener) (bus : Bus ε) : Decidable (l.KeepsUp bus) :=
  inferInstanceAs (Decidable (bus.dropped ≤ l.position))

/-- All events of the request are still to be read. -/
def Precedes [DecidableEq ρ] (l : Listener) (bus : Bus (Event ρ)) (request : ρ) : Prop :=
  ∀ event ∈ bus.published.take l.position, event.request ≠ request

instance [DecidableEq ρ] (l : Listener) (bus : Bus (Event ρ)) (request : ρ) :
    Decidable (l.Precedes bus request) :=
  inferInstanceAs (Decidable (∀ event ∈ bus.published.take l.position, _))

theorem catchUp_of_keepsUp {l : Listener} {bus : Bus ε} (h : l.KeepsUp bus) :
    l.catchUp bus = (l, []) := by
  rw [catchUp, if_neg (Nat.not_lt.2 h)]

theorem atEnd_ne_event (bus : Bus ε) (event : ε) : atEnd bus ≠ .event event := by
  unfold atEnd
  split <;> simp

theorem nextThat_eq_event_iff {l : Listener} {bus : Bus ε} (h : l.KeepsUp bus)
    {wanted : ε → Bool} {event : ε} :
    (l.nextThat bus wanted).1 = .event event ↔
      (bus.published.drop l.position).find? wanted = some event := by
  simp only [nextThat, catchUp_of_keepsUp h]
  cases (bus.published.drop l.position).find? wanted with
  | none => simp [atEnd_ne_event]
  | some first => simp

/-- The listener gets the first answer of the request. -/
theorem waitFor_eq_event_iff [DecidableEq ρ] {l : Listener} {bus : Bus (Event ρ)}
    (h : l.KeepsUp bus) {request : ρ} (hprecedes : l.Precedes bus request) {event : Event ρ} :
    (l.waitFor bus request).1 = .event event ↔
      (bus.published.filter fun event => event.request = request).find? Event.isTerminal =
        some event := by
  have hread : (bus.published.take l.position).filter (fun event => event.request = request) =
      [] := List.filter_eq_nil_iff.2 fun event hevent => by simpa using hprecedes event hevent
  have hrest : (bus.published.filter fun event => event.request = request) =
      (bus.published.drop l.position).filter fun event => event.request = request := by
    have hsplit := congrArg (List.filter fun event => event.request = request)
      (List.take_append_drop l.position bus.published)
    rw [List.filter_append, hread, List.nil_append] at hsplit
    exact hsplit.symm
  rw [waitFor, nextThat_eq_event_iff h, hrest, List.find?_filter]
  simp only [Bool.decide_and, Bool.decide_eq_true]

end Wiring.Listener
