import Mathlib.Data.List.DropRight
import Wiring.Event.Bus
import Wiring.Proofs.Event.Waiting

/-!
# Receiving from a bus

A listener receives in attempts.  One attempt gives it the next event, or tells it how many of
the events that it has not read are no longer kept and moves it behind them, or gives it nothing.
To read an event is to attempt until there is something else than a lag, `next_eq_attempt`; to
drain is to attempt until there is nothing, `drain_eq_attempt`.

What a drain comes to is said by the unread events: it returns those that are kept and counts the
others in one notice, `drain_eq`; `next_eq` says the same of reading one event.
-/

namespace Wiring

/-- What one attempt to receive gives. -/
inductive Attempt (ε : Type) where
  | event (e : ε)
  /-- So many of the unread events are no longer kept. -/
  | lagged (missed : Nat)
  | nothing
deriving Repr

/-- The events that notices count as missed. -/
def missedIn : List Notice → Nat
  | [] => 0
  | .lagged missed :: notices => missed + missedIn notices
  | _ :: notices => missedIn notices

theorem missedIn_append (notices more : List Notice) :
    missedIn (notices ++ more) = missedIn notices + missedIn more := by
  fun_induction missedIn notices with
  | case1 => simp
  | case2 missed notices ih => rw [List.cons_append, missedIn, ih, Nat.add_assoc]
  | case3 notice notices hlag ih => rw [List.cons_append, missedIn.eq_3 _ _ hlag, ih]

namespace Listener

variable {ε : Type} {l l' : Listener} {bus : Bus ε} {e : ε} {n : Nat}

/-- One attempt to receive. -/
def attempt (l : Listener) (bus : Bus ε) : Attempt ε × Listener :=
  if l.position < bus.dropped then (.lagged (bus.dropped - l.position), ⟨bus.dropped⟩)
  else match bus.published[l.position]? with
    | some e => (.event e, ⟨l.position + 1⟩)
    | none => (.nothing, l)

/-- The events that a listener has neither got nor been told to have missed. -/
def unread (l : Listener) (bus : Bus ε) : List ε := bus.published.drop l.position

/-- The unread events that are kept. -/
def readable (l : Listener) (bus : Bus ε) : List ε :=
  bus.published.drop (max l.position bus.dropped)

/-- The number of unread events that are no longer kept. -/
def overdue (l : Listener) (bus : Bus ε) : Nat := bus.dropped - l.position

/-! ## One attempt -/

theorem attempt_eq_event_iff :
    l.attempt bus = (.event e, l') ↔
      bus.dropped ≤ l.position ∧ bus.published[l.position]? = some e ∧
        l' = ⟨l.position + 1⟩ := by
  unfold attempt
  split
  case isTrue hlag => simp [Nat.not_le.2 hlag]
  case isFalse hlag =>
    cases bus.published[l.position]? with
    | some first => simp [Nat.not_lt.1 hlag, eq_comm]
    | none => simp

theorem attempt_eq_lagged_iff :
    l.attempt bus = (.lagged n, l') ↔
      l.position < bus.dropped ∧ n = bus.dropped - l.position ∧ l' = ⟨bus.dropped⟩ := by
  unfold attempt
  split
  case isTrue hlag => simp [hlag, eq_comm]
  case isFalse hlag => split <;> simp [hlag]

theorem attempt_eq_nothing_iff :
    l.attempt bus = (.nothing, l') ↔
      bus.dropped ≤ l.position ∧ bus.published.length ≤ l.position ∧ l' = l := by
  unfold attempt
  split
  case isTrue hlag => simp [Nat.not_le.2 hlag]
  case isFalse hlag =>
    rw [← List.getElem?_eq_none_iff]
    cases bus.published[l.position]? with
    | some first => simp
    | none => simp [Nat.not_lt.1 hlag, eq_comm]

theorem dropped_le (bus : Bus ε) : bus.dropped ≤ bus.published.length := Nat.sub_le _ _

/-- Attempts come to an end: each that gives something leaves fewer events unread. -/
theorem attempt_induction {motive : Listener → Prop} (bus : Bus ε)
    (event : ∀ l e l', l.attempt bus = (.event e, l') → motive l' → motive l)
    (lagged : ∀ l n l', l.attempt bus = (.lagged n, l') → motive l' → motive l)
    (nothing : ∀ l l', l.attempt bus = (.nothing, l') → motive l) (l : Listener) :
    motive l := by
  induction hunread : bus.published.length - l.position using Nat.strongRecOn generalizing l with
  | ind unread ih =>
    cases hattempt : l.attempt bus with
    | mk what l' =>
      cases what with
      | event e =>
        obtain ⟨-, hevent, rfl⟩ := attempt_eq_event_iff.1 hattempt
        have hlt := (List.getElem?_eq_some_iff.1 hevent).1
        exact event l e _ hattempt (ih _ (by simp only; omega) _ rfl)
      | lagged n =>
        obtain ⟨hlag, -, rfl⟩ := attempt_eq_lagged_iff.1 hattempt
        have hle := dropped_le bus
        exact lagged l n _ hattempt (ih _ (by simp only; omega) _ rfl)
      | nothing => exact nothing l l' hattempt

/-! ## Attempt after attempt -/

/-- To read the next event is to attempt until it is no lag that comes. -/
theorem next_eq_attempt (l : Listener) (bus : Bus ε) :
    l.next bus = match l.attempt bus with
      | (.event e, l') => (.event e, l', [])
      | (.lagged n, l') =>
        ((l'.next bus).1, (l'.next bus).2.1, .lagged n :: (l'.next bus).2.2)
      | (.nothing, l') => (atEnd bus, l', []) := by
  cases hattempt : l.attempt bus with
  | mk what l' =>
    cases what with
    | event e =>
      obtain ⟨hkept, hevent, rfl⟩ := attempt_eq_event_iff.1 hattempt
      simp [next, catchUp, Nat.not_lt.2 hkept, hevent]
    | lagged n =>
      obtain ⟨hlag, rfl, rfl⟩ := attempt_eq_lagged_iff.1 hattempt
      -- The listener is behind the lost events now, so no second lag comes.
      simp only [next, catchUp, if_pos hlag, Nat.lt_irrefl, if_false]
      split <;> rfl
    | nothing =>
      obtain ⟨hkept, hend, rfl⟩ := attempt_eq_nothing_iff.1 hattempt
      simp [next, catchUp, Nat.not_lt.2 hkept, List.getElem?_eq_none hend]

/-- To drain is to attempt until there is nothing. -/
theorem drain_eq_attempt (l : Listener) (bus : Bus ε) :
    l.drain bus = match l.attempt bus with
      | (.event e, l') =>
        (e :: (l'.drain bus).1, (l'.drain bus).2.1, (l'.drain bus).2.2)
      | (.lagged n, l') =>
        ((l'.drain bus).1, (l'.drain bus).2.1, .lagged n :: (l'.drain bus).2.2)
      | (.nothing, l') => ([], l', []) := by
  cases hattempt : l.attempt bus with
  | mk what l' =>
    cases what with
    | event e =>
      obtain ⟨hkept, hevent, rfl⟩ := attempt_eq_event_iff.1 hattempt
      obtain ⟨hlt, rfl⟩ := List.getElem?_eq_some_iff.1 hevent
      -- Whether this event is taken first or with the others, the listener ends behind all.
      have hkept' : ¬ l.position + 1 < bus.dropped := by omega
      have hmax : max l.position bus.published.length =
          max (l.position + 1) bus.published.length := by omega
      simp only [drain, catchUp, if_neg (Nat.not_lt.2 hkept), if_neg hkept',
        List.drop_eq_getElem_cons hlt, hmax]
    | lagged n =>
      obtain ⟨hlag, rfl, rfl⟩ := attempt_eq_lagged_iff.1 hattempt
      simp only [drain, catchUp, if_pos hlag, Nat.lt_irrefl, if_false]
    | nothing =>
      obtain ⟨hkept, hend, rfl⟩ := attempt_eq_nothing_iff.1 hattempt
      simp only [drain, catchUp, if_neg (Nat.not_lt.2 hkept), List.drop_eq_nil_of_le hend,
        Nat.max_eq_left hend]

/-! ## What comes out -/

/-- The warning for the events that are overdue. -/
def warnings (l : Listener) (bus : Bus ε) : List Notice :=
  if l.overdue bus = 0 then [] else [.lagged (l.overdue bus)]

theorem catchUp_eq (l : Listener) (bus : Bus ε) :
    l.catchUp bus = (⟨max l.position bus.dropped⟩, l.warnings bus) := by
  unfold catchUp warnings overdue
  split
  case isTrue hlag => simp [Nat.max_eq_right hlag.le, Nat.sub_ne_zero_of_lt hlag]
  case isFalse hlag =>
    rw [Nat.max_eq_left (Nat.not_lt.1 hlag), if_pos (Nat.sub_eq_zero_of_le (Nat.not_lt.1 hlag))]

/-- A listener that has drained a bus stands where a new one would. -/
theorem drain_eq (h : l.position ≤ bus.published.length) :
    l.drain bus = (l.readable bus, bus.subscribe, l.warnings bus) := by
  have hend : max (max l.position bus.dropped) bus.published.length = bus.published.length :=
    Nat.max_eq_right (Nat.max_le.2 ⟨h, dropped_le bus⟩)
  simp only [drain, catchUp_eq, readable, Bus.subscribe, hend]

/-- Reading one event gives the oldest that is kept. -/
theorem next_eq (l : Listener) (bus : Bus ε) :
    l.next bus = match l.readable bus with
      | e :: _ => (.event e, ⟨max l.position bus.dropped + 1⟩, l.warnings bus)
      | [] => (atEnd bus, ⟨max l.position bus.dropped⟩, l.warnings bus) := by
  simp only [next, catchUp_eq, readable]
  rw [← List.head?_drop]
  cases bus.published.drop (max l.position bus.dropped) <;> rfl

theorem notices_next (l : Listener) (bus : Bus ε) : (l.next bus).2.2 = l.warnings bus := by
  rw [next_eq]
  split <;> rfl

/-- What is kept of the unread events is the last of them. -/
theorem readable_eq_rtake (l : Listener) (bus : Bus ε) :
    l.readable bus = (l.unread bus).rtake bus.capacity := by
  unfold readable unread Bus.dropped
  rw [List.rtake, List.drop_drop, List.length_drop]
  rcases Nat.le_total l.position bus.published.length with h | h
  · congr 1
    omega
  · rw [List.drop_eq_nil_of_le (by omega), List.drop_eq_nil_of_le (by omega)]

/-- Those of the unread events that cannot be read are more than the bus keeps. -/
theorem length_readable (l : Listener) (bus : Bus ε) :
    (l.readable bus).length + ((l.unread bus).length - bus.capacity) = (l.unread bus).length := by
  rw [readable_eq_rtake, List.rtake, List.length_drop]
  omega

theorem overdue_eq (l : Listener) (bus : Bus ε) :
    l.overdue bus = (l.unread bus).length - bus.capacity := by
  rw [overdue, unread, Bus.dropped, List.length_drop, Nat.sub_right_comm]

theorem readable_eq_unread (h : l.KeepsUp bus) : l.readable bus = l.unread bus := by
  rw [readable, unread, Nat.max_eq_left h]

theorem warnings_eq (l : Listener) (bus : Bus ε) :
    l.warnings bus =
      if bus.capacity < (l.unread bus).length then
        [.lagged ((l.unread bus).length - bus.capacity)]
      else [] := by
  rw [warnings, overdue_eq]
  split <;> split <;> first | rfl | omega

theorem keepsUp_next (l : Listener) (bus : Bus ε) : (l.next bus).2.1.KeepsUp bus := by
  rw [next_eq]
  split
  · exact Nat.le_succ_of_le (Nat.le_max_right _ _)
  · exact Nat.le_max_right _ _

end Listener

end Wiring
