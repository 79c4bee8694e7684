import Mathlib.Order.Bounds.Basic
import Wiring.Proofs.Event.Receiving

/-!
# The account of a listener

Any number of listeners read from a bus while events are published to it, in any order.  Of what
is published after it came, a listener passes over the oldest events only, and only those that
the bus no longer keeps.  What it was given, what its warnings count and what it can still read
add up to all of it but for the events that were lost since it last read: a listener is told of
these when it reads, `accounts_of_run`.  Until then they are missing from the sum,
`accounted_ne_published`.

The invariant is `Listener.Follows`, which is said of one listener and kept by every attempt to
receive and by every event that is published; what the other listeners do is no matter to it.
-/

namespace Wiring

variable {ε : Type}

/-! ## One listener -/

/-- The events of a reception. -/
def Reception.toList : Reception ε → List ε
  | .event e => [e]
  | .pending | .ended => []

@[simp] theorem Reception.toList_atEnd (bus : Bus ε) : (Listener.atEnd bus).toList = [] := by
  unfold Listener.atEnd
  split <;> rfl

namespace Listener

variable {l l' : Listener} {bus : Bus ε} {since missed n : Nat} {returned : List ε} {e : ε}

/-- A listener that came after `since` events has been given some of what it has passed since, in
the order of publication, and the number of the others is `missed`. -/
structure Follows (l : Listener) (bus : Bus ε) (since : Nat) (returned : List ε) (missed : Nat) :
    Prop where
  position_le : l.position ≤ bus.published.length
  sublist : returned.Sublist ((bus.published.take l.position).drop since)
  count : since + returned.length + missed = l.position

namespace Follows

theorem subscribe (bus : Bus ε) : bus.subscribe.Follows bus bus.published.length [] 0 where
  position_le := Nat.le_refl _
  sublist := List.nil_sublist _
  count := rfl

theorem publish (h : l.Follows bus since returned missed) (e : ε) :
    l.Follows (bus.publish e) since returned missed := by
  unfold Bus.publish
  split
  case isTrue =>
    refine ⟨?_, ?_, h.count⟩
    · have hle := h.position_le
      rw [List.length_append]
      omega
    · rw [List.take_append_of_le_length h.position_le]
      exact h.sublist
  case isFalse => exact h

/-- An attempt that gives an event moves the listener past this event and no other. -/
theorem event (h : l.Follows bus since returned missed)
    (hattempt : l.attempt bus = (.event e, l')) :
    l'.Follows bus since (returned ++ [e]) missed := by
  obtain ⟨-, hevent, rfl⟩ := attempt_eq_event_iff.1 hattempt
  obtain ⟨hlt, rfl⟩ := List.getElem?_eq_some_iff.1 hevent
  have hcount := h.count
  refine ⟨hlt, ?_, ?_⟩
  · have hsince : since ≤ (bus.published.take l.position).length := by
      rw [List.length_take]
      omega
    rw [← List.take_append_getElem hlt, List.drop_append_of_le_length hsince]
    exact h.sublist.append (List.Sublist.refl _)
  · simp only [List.length_append, List.length_singleton]
    omega

/-- An attempt that tells of a lag moves the listener past as many events as it counts. -/
theorem lagged (h : l.Follows bus since returned missed)
    (hattempt : l.attempt bus = (.lagged n, l')) :
    l'.Follows bus since returned (missed + n) := by
  obtain ⟨hlag, rfl, rfl⟩ := attempt_eq_lagged_iff.1 hattempt
  have hcount := h.count
  refine ⟨dropped_le bus, h.sublist.trans (List.Sublist.drop ?_ since), ?_⟩
  · exact (List.take_prefix_take_left hlag.le).sublist
  · simp only
    omega

theorem nothing (h : l.Follows bus since returned missed)
    (hattempt : l.attempt bus = (.nothing, l')) : l'.Follows bus since returned missed := by
  obtain ⟨-, -, rfl⟩ := attempt_eq_nothing_iff.1 hattempt
  exact h

theorem next (h : l.Follows bus since returned missed) :
    (l.next bus).2.1.Follows bus since (returned ++ (l.next bus).1.toList)
      (missed + missedIn (l.next bus).2.2) := by
  induction l using attempt_induction bus generalizing missed with
  | event l e l' hattempt _ =>
    rw [next_eq_attempt, hattempt]
    exact h.event hattempt
  | lagged l n l' hattempt ih =>
    rw [next_eq_attempt, hattempt]
    simpa only [missedIn, Nat.add_assoc] using ih (h.lagged hattempt)
  | nothing l l' hattempt =>
    rw [next_eq_attempt, hattempt]
    simpa only [Reception.toList_atEnd, List.append_nil, missedIn, Nat.add_zero] using
      h.nothing hattempt

theorem drain (h : l.Follows bus since returned missed) :
    (l.drain bus).2.1.Follows bus since (returned ++ (l.drain bus).1)
      (missed + missedIn (l.drain bus).2.2) := by
  induction l using attempt_induction bus generalizing returned missed with
  | event l e l' hattempt ih =>
    rw [drain_eq_attempt, hattempt]
    simpa only [List.append_assoc, List.singleton_append] using ih (h.event hattempt)
  | lagged l n l' hattempt ih =>
    rw [drain_eq_attempt, hattempt]
    simpa only [missedIn, Nat.add_assoc] using ih (h.lagged hattempt)
  | nothing l l' hattempt =>
    rw [drain_eq_attempt, hattempt]
    simpa only [List.append_nil, missedIn, Nat.add_zero] using h.nothing hattempt

end Follows

end Listener

/-! ## The readers of a bus -/

/-- What is done with a bus; its listeners are numbered in the order in which they came. -/
inductive Bus.Action (ε : Type) where
  | publish (e : ε)
  | subscribe
  | next (i : Nat)
  | drain (i : Nat)
deriving DecidableEq, Repr

open Bus (Action)

/-- The events that actions publish. -/
def publications (actions : List (Action ε)) : List ε :=
  actions.filterMap fun
    | .publish e => some e
    | _ => none

/-- The number of listeners that come with actions. -/
def subscriptions (actions : List (Action ε)) : Nat :=
  actions.countP fun
    | .subscribe => true
    | _ => false

/-- A listener with all that it has been given. -/
structure Reader (ε : Type) where
  listener : Listener
  returned : List ε := []
  notices : List Notice := []
deriving DecidableEq, Repr

namespace Reader

/-- Read the next event. -/
def next (r : Reader ε) (bus : Bus ε) : Reader ε :=
  let (reception, listener, notices) := r.listener.next bus
  ⟨listener, r.returned ++ reception.toList, r.notices ++ notices⟩

/-- Read everything there is. -/
def drain (r : Reader ε) (bus : Bus ε) : Reader ε :=
  let (events, listener, notices) := r.listener.drain bus
  ⟨listener, r.returned ++ events, r.notices ++ notices⟩

/-- The reader came after `since` events, and its account holds. -/
def Follows (r : Reader ε) (bus : Bus ε) (since : Nat) : Prop :=
  r.listener.Follows bus since r.returned (missedIn r.notices)

variable {r : Reader ε} {bus : Bus ε} {since : Nat}

theorem Follows.next (h : r.Follows bus since) : (r.next bus).Follows bus since := by
  unfold Follows Reader.next
  rw [missedIn_append]
  exact Listener.Follows.next h

theorem Follows.drain (h : r.Follows bus since) : (r.drain bus).Follows bus since := by
  unfold Follows Reader.drain
  rw [missedIn_append]
  exact Listener.Follows.drain h

end Reader

/-- A bus with its readers. -/
structure Audience (ε : Type) where
  bus : Bus ε
  readers : List (Reader ε) := []
deriving Repr

namespace Audience

/-- One action. -/
def act (a : Audience ε) : Action ε → Audience ε
  | .publish e => { a with bus := a.bus.publish e }
  | .subscribe => { a with readers := a.readers ++ [{ listener := a.bus.subscribe }] }
  | .next i => { a with readers := a.readers.modify i fun r => r.next a.bus }
  | .drain i => { a with readers := a.readers.modify i fun r => r.drain a.bus }

/-- Actions, one after the other. -/
def run (a : Audience ε) (actions : List (Action ε)) : Audience ε := actions.foldl act a

variable {a : Audience ε} {i since : Nat}

theorem run_cons (a : Audience ε) (action : Action ε) (actions : List (Action ε)) :
    a.run (action :: actions) = (a.act action).run actions := rfl

theorem run_append (a : Audience ε) (before after : List (Action ε)) :
    a.run (before ++ after) = (a.run before).run after := List.foldl_append

/-- The bus is moved by publications alone. -/
theorem bus_run (hopen : a.bus.isOpen = true) (actions : List (Action ε)) :
    (a.run actions).bus =
      { a.bus with published := a.bus.published ++ publications actions } := by
  induction actions generalizing a with
  | nil => simp [run, publications]
  | cons action actions ih =>
    cases action with
    | publish e =>
      have hpublish : (a.act (.publish e)).bus =
          { a.bus with published := a.bus.published ++ [e] } := if_pos hopen
      have hstays : (a.act (.publish e)).bus.isOpen = true := by rw [hpublish]; exact hopen
      rw [run_cons, ih hstays, hpublish]
      simp [publications]
    | subscribe | next i | drain i => exact ih hopen

theorem length_readers_run (a : Audience ε) (actions : List (Action ε)) :
    (a.run actions).readers.length = a.readers.length + subscriptions actions := by
  induction actions generalizing a with
  | nil => rfl
  | cons action actions ih =>
    rw [run_cons, ih]
    cases action with
    | subscribe => simp [act, subscriptions]; omega
    | publish e | next i | drain i => simp [act, subscriptions]

/-- The account of one of the readers holds. -/
def Follows (a : Audience ε) (i since : Nat) : Prop :=
  ∃ r, a.readers[i]? = some r ∧ r.Follows a.bus since

theorem Follows.subscribe (a : Audience ε) :
    (a.act .subscribe).Follows a.readers.length a.bus.published.length :=
  ⟨_, List.getElem?_concat_length, Listener.Follows.subscribe a.bus⟩

/-- Reading by one of the readers keeps the account of every one. -/
theorem Follows.modify (h : a.Follows i since) (j : Nat) {read : Reader ε → Reader ε}
    (hread : ∀ r : Reader ε, r.Follows a.bus since → (read r).Follows a.bus since) :
    Follows { a with readers := a.readers.modify j read } i since := by
  obtain ⟨r, hr, hfollows⟩ := h
  refine ⟨if j = i then read r else r, ?_, ?_⟩
  · rw [List.getElem?_modify, hr]
    rfl
  · split
    · exact hread r hfollows
    · exact hfollows

theorem Follows.act (h : a.Follows i since) (action : Action ε) :
    (a.act action).Follows i since := by
  cases action with
  | publish e =>
    obtain ⟨r, hr, hfollows⟩ := h
    exact ⟨r, hr, Listener.Follows.publish hfollows e⟩
  | subscribe =>
    obtain ⟨r, hr, hfollows⟩ := h
    obtain ⟨hlt, -⟩ := List.getElem?_eq_some_iff.1 hr
    exact ⟨r, (List.getElem?_append_left hlt).trans hr, hfollows⟩
  | next j => exact h.modify j fun r hr => hr.next
  | drain j => exact h.modify j fun r hr => hr.drain

theorem Follows.run (h : a.Follows i since) (actions : List (Action ε)) :
    (a.run actions).Follows i since := by
  induction actions generalizing a with
  | nil => exact h
  | cons action actions ih => exact ih (h.act action)

/-- A new bus, which nobody reads. -/
def opened (capacity : Nat) : Audience ε := { bus := Bus.create capacity }

theorem bus_run_opened (capacity : Nat) (actions : List (Action ε)) :
    ((opened capacity).run actions).bus =
      { (Bus.create capacity : Bus ε) with published := publications actions } :=
  bus_run rfl actions

theorem length_readers_run_opened (capacity : Nat) (actions : List (Action ε)) :
    ((opened capacity).run actions).readers.length = subscriptions actions :=
  (length_readers_run _ actions).trans (Nat.zero_add _)

end Audience

/-! ## The account -/

namespace Reader

variable {r : Reader ε} {bus : Bus ε} {since : Nat} {before events : List ε}

/-- A reader has lost only the oldest of the events that it had not read, and is told when it
reads. -/
structure Accounts (r : Reader ε) (bus : Bus ε) (events : List ε) : Prop where
  /-- It was given the events in the order of publication, and none of them twice. -/
  returned_sublist : r.returned.Sublist events
  unread_suffix : r.listener.unread bus <:+ events
  /-- It can read the last of the unread events, as many as the bus keeps. -/
  readable_eq : r.listener.readable bus = (r.listener.unread bus).rtake bus.capacity
  /-- What it was given, what it was told to have missed and what it can read add up to all events
  but those that it has not read and the bus no longer keeps. -/
  total : r.returned.length + missedIn r.notices + (r.listener.readable bus).length +
    ((r.listener.unread bus).length - bus.capacity) = events.length
  /-- Once it has read one more event, what it is told adds up with what it can still read. -/
  total_next : (r.next bus).returned.length + missedIn (r.next bus).notices +
    ((r.next bus).listener.readable bus).length = events.length
  total_drain : (r.drain bus).returned.length + missedIn (r.drain bus).notices +
    ((r.drain bus).listener.readable bus).length = events.length
  /-- One event is the oldest of those that are kept. -/
  next_eq : (r.listener.next bus).1 =
    match (r.listener.unread bus).rtake bus.capacity with
    | e :: _ => .event e
    | [] => .pending
  /-- To read one event is to be told of the lost ones as well. -/
  next_notices : (r.listener.next bus).2.2 =
    if bus.capacity < (r.listener.unread bus).length then
      [.lagged ((r.listener.unread bus).length - bus.capacity)]
    else []
  drain_eq : r.listener.drain bus =
    ((r.listener.unread bus).rtake (min (r.listener.unread bus).length bus.capacity),
      bus.subscribe,
      if bus.capacity < (r.listener.unread bus).length then
        [.lagged ((r.listener.unread bus).length - bus.capacity)]
      else [])
  unread_drain : (r.drain bus).listener.unread bus = []

theorem Follows.listener_drain (h : r.Follows bus since) :
    (r.drain bus).listener = bus.subscribe :=
  congrArg (·.2.1) (Listener.drain_eq h.position_le)

theorem Follows.total_unread (h : r.Follows bus before.length)
    (hbus : bus.published = before ++ events) :
    r.returned.length + missedIn r.notices + (r.listener.unread bus).length = events.length := by
  have hcount := h.count
  have hle := h.position_le
  rw [Listener.unread, List.length_drop]
  rw [hbus, List.length_append] at hle ⊢
  omega

/-- A reader that keeps up can read all that it has neither got nor been told to have missed. -/
theorem Follows.total_of_keepsUp (h : r.Follows bus before.length)
    (hbus : bus.published = before ++ events) (hkeeps : r.listener.KeepsUp bus) :
    r.returned.length + missedIn r.notices + (r.listener.readable bus).length =
      events.length := by
  rw [Listener.readable_eq_unread hkeeps]
  exact h.total_unread hbus

/-- The account of a reader that follows the bus. -/
theorem Follows.accounts (h : r.Follows bus before.length)
    (hbus : bus.published = before ++ events) (hopen : bus.isOpen = true) :
    r.Accounts bus events where
  returned_sublist := by
    have hpassed := h.sublist.trans ((List.take_sublist _ _).drop before.length)
    rwa [hbus, List.drop_left] at hpassed
  unread_suffix := by
    have hcount := h.count
    rw [Listener.unread, hbus, List.drop_append, List.drop_eq_nil_of_le (by omega),
      List.nil_append]
    exact List.drop_suffix _ _
  readable_eq := r.listener.readable_eq_rtake bus
  total := by
    have hunread := h.total_unread hbus
    have hkept := r.listener.length_readable bus
    omega
  total_next := h.next.total_of_keepsUp hbus (Listener.keepsUp_next r.listener bus)
  total_drain :=
    h.drain.total_of_keepsUp hbus (h.listener_drain ▸ Listener.dropped_le bus)
  next_eq := by
    rw [Listener.next_eq, ← Listener.readable_eq_rtake]
    cases r.listener.readable bus with
    | nil => exact if_pos hopen
    | cons e rest => rfl
  next_notices := by
    rw [Listener.notices_next, Listener.warnings_eq]
  drain_eq := by
    rw [Listener.drain_eq h.position_le, Listener.warnings_eq, Listener.readable_eq_rtake]
    congr 1
    rw [List.rtake, List.rtake]
    congr 1
    omega
  unread_drain := by
    rw [h.listener_drain]
    exact List.drop_length

end Reader

namespace Bus

/-- The capacity is rounded up to a power of two. -/
theorem isLeast_roundUp (n : Nat) : IsLeast {m | m.isPowerOfTwo ∧ n ≤ m} (roundUp n) := by
  unfold roundUp
  split
  case isTrue hle =>
    exact ⟨⟨Nat.isPowerOfTwo_one, hle⟩, fun m hm => Nat.pos_of_isPowerOfTwo hm.1⟩
  case isFalse hlt =>
    have hne : n - 1 ≠ 0 := by omega
    have habove : n - 1 < Nat.pow 2 ((n - 1).log2 + 1) := Nat.lt_log2_self
    refine ⟨⟨⟨_, rfl⟩, by omega⟩, ?_⟩
    rintro m ⟨⟨k, rfl⟩, hm⟩
    -- a power of two above `n - 1` has a greater exponent than the last one that is not
    have hexponent : (n - 1).log2 < k := (Nat.log2_lt hne).2 (by omega)
    exact Nat.pow_le_pow_right Nat.two_pos hexponent

end Bus

/-- Listeners lose only the oldest events, and are told when they read: whatever is done with a
bus, the account of the listener that came after `before` holds of what is published after it. -/
theorem accounts_of_run (capacity : Nat) (before after : List (Action ε)) :
    let audience := (Audience.opened capacity).run (before ++ .subscribe :: after)
    IsLeast {n | n.isPowerOfTwo ∧ capacity ≤ n} audience.bus.capacity ∧
      ∃ r, audience.readers[subscriptions before]? = some r ∧
        r.Accounts audience.bus (publications after) := by
  intro audience
  have hsplit : audience =
      (((Audience.opened capacity).run before).act .subscribe).run after :=
    Audience.run_append _ before (.subscribe :: after)
  have hbus := Audience.bus_run_opened capacity (before ++ .subscribe :: after)
  obtain ⟨r, hr, hfollows⟩ :=
    (Audience.Follows.subscribe ((Audience.opened capacity).run before)).run after
  rw [Audience.length_readers_run_opened, ← hsplit] at hr
  rw [Audience.bus_run_opened, ← hsplit] at hfollows
  refine ⟨?_, r, hr, hfollows.accounts ?_ ?_⟩
  · rw [hbus]
    exact Bus.isLeast_roundUp capacity
  · rw [hbus]
    exact List.filterMap_append
  · rw [hbus]
    rfl

/-- A lost event is in no warning before the listener reads: of two events on a bus that keeps one,
a listener that has read nothing can read the second and was not told of the first. -/
theorem accounted_ne_published :
    ∃ r, ((Audience.opened 1).run [.subscribe, .publish "a", .publish "b"]).readers[0]? = some r ∧
      r.returned.length + missedIn r.notices +
          (r.listener.readable
            ((Audience.opened 1).run [.subscribe, .publish "a", .publish "b"]).bus).length ≠
        (publications [.publish "a", .publish "b"]).length :=
  ⟨{ listener := ⟨0⟩ }, by decide, by decide⟩

-- The second listener keeps up while the first is three events behind a bus that keeps two.
example :
    (Audience.run ⟨{ capacity := 2 }, []⟩
      [.subscribe, .publish "a", .subscribe, .publish "b", .next 1, .publish "c", .drain 0,
        .next 1]).readers =
      [⟨⟨3⟩, ["b", "c"], [.lagged 1]⟩, ⟨⟨3⟩, ["b", "c"], []⟩] := by
  decide

end Wiring
