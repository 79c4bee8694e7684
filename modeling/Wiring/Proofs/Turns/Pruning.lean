import Mathlib.Data.List.Induction
import Wiring.Proofs.Turns.Line

/-!
# Pruning never splits a turn

Whoever asks for a turn first removes all locks without a reference besides the one in the
table.  Everybody who has or waits for a turn holds such a reference, so whatever is asked for
and given back, in any order, an id has one lock as long as anybody is after its turn: at most
one of them has the turn, and they get it in the order in which they asked, `fair_run`.

The invariant is `History.Valid`.  Those who ask are numbered as they come, so the numbers of
those who wait ascend, and whoever got a turn has a smaller number than all who still wait for
the same one; a turn that is given back goes to the smallest number that waits for it.
-/

namespace Wiring.Turns

variable {η : Type} {t : Turns η} {handle : η} {id : String}

/-! ## References -/

/-- The number of references to a lock: those of who has it, of who waits for it, and of the
table. -/
def references (t : Turns η) (lock : Nat) : Nat :=
  t.holders.countP (·.lock = lock) + t.waiting.countP (·.lock = lock) +
    t.locks.countP (·.2 = lock)

theorem Orderly.references_eq (ht : t.Orderly) {entry : String × Nat} (hentry : entry ∈ t.locks) :
    t.references entry.2 = t.parties.countP (·.lock = entry.2) + 1 := by
  have honce : t.locks.countP (·.2 = entry.2) = 1 := by
    have hcount := List.count_eq_one_of_mem ht.separate (List.mem_map_of_mem hentry)
    rw [List.count_eq_countP, List.countP_map] at hcount
    exact (List.countP_congr (by simp)).trans hcount
  rw [references, honce, parties, List.countP_append]

/-- Pruning removes the locks that nothing refers to but the table. -/
theorem locks_prune (ht : t.Orderly) :
    t.prune.locks = t.locks.filter fun entry => 1 < t.references entry.2 := by
  refine List.filter_congr fun entry hentry => ?_
  rw [ht.references_eq hentry, Bool.eq_iff_iff, isReferred_iff, decide_eq_true_eq,
    Nat.lt_add_left_iff_pos, List.countP_pos_iff]
  simp

/-! ## What a table becomes -/

/-- Who asks for a turn gets it when nobody is after it, and waits behind all others
otherwise. -/
theorem acquire_cases (ht : t.Orderly) (handle : η) (id : String) :
    ∃ lock, (∀ p ∈ t.parties, p.id ≠ id) ∧
        (t.acquire handle id).holders = t.holders ++ [⟨handle, id, lock⟩] ∧
        (t.acquire handle id).waiting = t.waiting ∨
      (t.acquire handle id).holders = t.holders ∧
        (t.acquire handle id).waiting = t.waiting ++ [⟨handle, id, lock⟩] := by
  obtain ⟨t', lock, ht', hholders, hwaiting, hentry, heq⟩ := exists_join_of_acquire ht handle id
  refine ⟨lock, ?_⟩
  rw [heq, join, ← hholders, ← hwaiting, ← parties_congr hholders hwaiting]
  by_cases hreferred : t'.isReferred lock = true
  · rw [if_pos hreferred]
    exact Or.inr ⟨rfl, rfl⟩
  · rw [if_neg hreferred]
    refine Or.inl ⟨fun p hp hid => hreferred (isReferred_iff.2 ⟨p, hp, ?_⟩), rfl, rfl⟩
    have hsame := List.inj_on_of_nodup_map ht'.ids (ht'.inTable p hp) hentry hid
    exact (Prod.mk.inj hsame).2

/-- After asking for a turn the table has the locks of those who have or wait for turns. -/
theorem exists_party_of_mem_locks_acquire (ht : t.Orderly) {entry : String × Nat}
    (h : entry ∈ (t.acquire handle id).locks) :
    ∃ p ∈ (t.acquire handle id).parties, (p.id, p.lock) = entry := by
  -- Joining a line leaves the locks, and everybody who was there stays.
  have hjoin : ∀ (t' : Turns η) (party : Party η), (t'.join party).locks = t'.locks ∧
      ∀ p, p ∈ t'.parties ∨ p = party → p ∈ (t'.join party).parties := by
    intro t' party
    refine ⟨by unfold join; split <;> rfl, fun p hp => ?_⟩
    rw [(perm_parties_join t' party).mem_iff, List.mem_cons]
    exact hp.symm
  have hpruned : ∀ entry ∈ t.prune.locks, ∃ p ∈ t.prune.parties, (p.id, p.lock) = entry := by
    intro entry hentry
    obtain ⟨hold, hreferred⟩ := List.mem_filter.1 hentry
    obtain ⟨p, hp, hlock⟩ := isReferred_iff.1 hreferred
    exact ⟨p, hp, List.inj_on_of_nodup_map ht.separate (ht.inTable p hp) hold hlock⟩
  cases hlock : t.prune.lockOf? id with
  | some lock =>
    rw [acquire_of_lock hlock] at h ⊢
    obtain ⟨hlocks, hstay⟩ := hjoin t.prune ⟨handle, id, lock⟩
    obtain ⟨p, hp, heq⟩ := hpruned entry (hlocks ▸ h)
    exact ⟨p, hstay p (Or.inl hp), heq⟩
  | none =>
    rw [acquire_of_none hlock] at h ⊢
    obtain ⟨hlocks, hstay⟩ := hjoin { t.prune with
      locks := t.prune.locks ++ [(id, t.nextLock)]
      nextLock := t.nextLock + 1 } ⟨handle, id, t.nextLock⟩
    rw [hlocks] at h
    rcases List.mem_append.1 h with hold | hnew
    · obtain ⟨p, hp, heq⟩ := hpruned entry hold
      exact ⟨p, hstay p (Or.inl hp), heq⟩
    · exact ⟨_, hstay _ (Or.inr rfl), (List.mem_singleton.1 hnew).symm⟩

/-- Who goes is gone, and if it had a turn that others wait for, the first of them has it. -/
theorem release_cases [DecidableEq η] (ht : t.Orderly) (handle : η) :
    t.release handle = t.without handle ∨
      ∃ front next rest, (t.without handle).waiting = front ++ next :: rest ∧
        (∀ p ∈ front, p.lock ≠ next.lock) ∧
        t.release handle =
          { t.without handle with
            holders := (t.without handle).holders ++ [next]
            waiting := front ++ rest } := by
  rcases release_eq ht handle with ⟨party, -, -, heq⟩ | ⟨-, heq⟩
  · rcases grantNext_eq (t.without handle) party.lock with
      ⟨-, hsame⟩ | ⟨front, next, rest, hwaiting, hnext, hfront, hpasses⟩
    · exact Or.inl (heq.trans hsame)
    · rw [← hnext] at hfront
      exact Or.inr ⟨front, next, rest, hwaiting, hfront, heq.trans hpasses⟩
  · exact Or.inl heq

/-! ## The order of turns -/

/-- Two parties that are not after the same turn, or asked for it in this order. -/
def InTurn (p q : Party Nat) : Prop := p.id = q.id → p.handle < q.handle

/-- Who got a turn and who waits for one has asked for it, and for each turn they stand in the
order of asking. -/
structure InOrder (calls : List String) (grants holders waiting : List (Party Nat)) : Prop where
  granted : holders ⊆ grants
  called : ∀ p ∈ grants ++ waiting, calls[p.handle]? = some p.id
  ordered : (grants ++ waiting).Pairwise InTurn

namespace InOrder

variable {calls : List String} {grants holders waiting : List (Party Nat)}

theorem handle_lt (h : InOrder calls grants holders waiting) {p : Party Nat}
    (hp : p ∈ grants ++ waiting) : p.handle < calls.length :=
  (List.getElem?_eq_some_iff.1 (h.called p hp)).1

/-- What was asked for stays asked for, and the last call is the one with the next number. -/
theorem called_concat (h : InOrder calls grants holders waiting) {id : String} (lock : Nat)
    {p : Party Nat} (hp : p ∈ grants ++ waiting ∨ p = ⟨calls.length, id, lock⟩) :
    (calls ++ [id])[p.handle]? = some p.id := by
  rcases hp with hp | rfl
  · exact (List.getElem?_append_left (h.handle_lt hp)).trans (h.called p hp)
  · exact List.getElem?_concat_length

/-- Who asks for a turn that nobody is after may get it at once. -/
theorem grant (h : InOrder calls grants holders waiting) {id : String}
    (hnobody : ∀ p ∈ waiting, p.id ≠ id) (lock : Nat) :
    InOrder (calls ++ [id]) (grants ++ [⟨calls.length, id, lock⟩])
      (holders ++ [⟨calls.length, id, lock⟩]) waiting := by
  obtain ⟨hgrants, hwaiting, hcross⟩ := List.pairwise_append.1 h.ordered
  refine ⟨List.append_subset.2 ⟨List.subset_append_of_subset_left _ h.granted,
    List.subset_append_right _ _⟩, fun p hp => h.called_concat lock ?_, ?_⟩
  · simp only [List.mem_append, List.mem_singleton] at hp ⊢
    tauto
  · rw [List.append_assoc, List.singleton_append, List.pairwise_append, List.pairwise_cons]
    refine ⟨hgrants, ⟨fun w hw hid => absurd hid.symm (hnobody w hw), hwaiting⟩, ?_⟩
    intro g hg p hp
    rcases List.mem_cons.1 hp with rfl | hp
    · exact fun _ => h.handle_lt (List.mem_append_left _ hg)
    · exact hcross g hg p hp

/-- Who asks for a turn may wait behind all others. -/
theorem wait (h : InOrder calls grants holders waiting) (id : String) (lock : Nat) :
    InOrder (calls ++ [id]) grants holders (waiting ++ [⟨calls.length, id, lock⟩]) := by
  refine ⟨h.granted, fun p hp => h.called_concat lock ?_, ?_⟩
  · simp only [List.mem_append, List.mem_singleton] at hp ⊢
    tauto
  · rw [← List.append_assoc, List.pairwise_append]
    refine ⟨h.ordered, List.pairwise_singleton _ _, fun p hp q hq => ?_⟩
    rw [List.mem_singleton.1 hq]
    exact fun _ => h.handle_lt hp

/-- Some may go. -/
theorem leave (h : InOrder calls grants holders waiting) {stay still : List (Party Nat)}
    (hstay : stay ⊆ holders) (hstill : still.Sublist waiting) :
    InOrder calls grants stay still where
  granted := List.Subset.trans hstay h.granted
  called := fun p hp => h.called p ((hstill.append_left grants).subset hp)
  ordered := h.ordered.sublist (hstill.append_left grants)

/-- A turn may go to the first who waits for it. -/
theorem handOver {front rest : List (Party Nat)} {next : Party Nat}
    (h : InOrder calls grants holders (front ++ next :: rest))
    (hfront : ∀ p ∈ front, p.id ≠ next.id) :
    InOrder calls (grants ++ [next]) (holders ++ [next]) (front ++ rest) := by
  obtain ⟨hgrants, hwaiting, hcross⟩ := List.pairwise_append.1 h.ordered
  obtain ⟨hfronts, hnext, hfrontrest⟩ := List.pairwise_append.1 hwaiting
  obtain ⟨hnextrest, hrest⟩ := List.pairwise_cons.1 hnext
  refine ⟨List.append_subset.2 ⟨List.subset_append_of_subset_left _ h.granted,
    List.subset_append_right _ _⟩, fun p hp => h.called p ?_, ?_⟩
  · simp only [List.mem_append, List.mem_cons, List.not_mem_nil, or_false] at hp ⊢
    tauto
  · rw [List.append_assoc, List.singleton_append, List.pairwise_append, List.pairwise_cons,
      List.pairwise_append]
    refine ⟨hgrants, ⟨?_, hfronts, hrest, ?_⟩, ?_⟩
    · intro p hp hid
      rcases List.mem_append.1 hp with hp | hp
      · exact absurd hid.symm (hfront p hp)
      · exact hnextrest p hp hid
    · exact fun p hp q hq => hfrontrest p hp q (List.mem_cons_of_mem _ hq)
    · intro g hg p hp
      refine hcross g hg p ?_
      simp only [List.mem_append, List.mem_cons] at hp ⊢
      tauto

end InOrder

/-! ## Histories -/

/-- What is done about turns.  Those who ask are numbered in the order in which they ask. -/
inductive Action where
  | acquire (id : String)
  /-- A turn is given back, or waited for no longer. -/
  | release (n : Nat)
deriving DecidableEq, Repr

/-- A table of turns with what happened to it. -/
structure History where
  turns : Turns Nat := {}
  /-- The ids on which turns were asked for. -/
  calls : List String := []
  /-- Who got a turn, in the order of getting it. -/
  grants : List (Party Nat) := []
  /-- Who gave a turn back or waited no longer. -/
  left : List Nat := []
deriving Repr

namespace History

/-- Who has a turn in another table and had none before. -/
def newHolders (h : History) (turns : Turns Nat) : List (Party Nat) :=
  turns.holders.filter (· ∉ h.turns.holders)

/-- One action. -/
def act (h : History) : Action → History
  | .acquire id =>
    let turns := h.turns.acquire h.calls.length id
    ⟨turns, h.calls ++ [id], h.grants ++ h.newHolders turns, h.left⟩
  | .release n =>
    let turns := h.turns.release n
    ⟨turns, h.calls, h.grants ++ h.newHolders turns,
      if n < h.calls.length then h.left ++ [n] else h.left⟩

/-- What happened when actions were done, one after the other. -/
def run (actions : List Action) : History := actions.foldl act {}

theorem run_concat (actions : List Action) (action : Action) :
    run (actions ++ [action]) = (run actions).act action := by
  simp [run]

/-- The numbers of those who asked for the turn on an id and have not left, in the order of
asking. -/
def after (h : History) (id : String) : List Nat :=
  (List.range h.calls.length).filter fun n => h.calls[n]? = some id ∧ n ∉ h.left

/-- The parties are those who asked and have not left, in the order of asking. -/
structure Valid (h : History) : Prop where
  orderly : h.turns.Orderly
  gone : ∀ n ∈ h.left, n < h.calls.length
  line : ∀ id, h.turns.line id = h.after id
  inOrder : InOrder h.calls h.grants h.turns.holders h.turns.waiting

theorem valid_empty : Valid {} where
  orderly := orderly_empty
  gone := fun _ hn => absurd hn List.not_mem_nil
  line := fun _ => rfl
  inOrder := ⟨List.nil_subset _, fun _ hp => absurd hp List.not_mem_nil, List.Pairwise.nil⟩

variable {h : History}

theorem newHolders_eq {turns : Turns Nat} {stay more : List (Party Nat)}
    (hholders : turns.holders = stay ++ more) (hstay : stay ⊆ h.turns.holders)
    (hmore : ∀ p ∈ more, p ∉ h.turns.holders) : h.newHolders turns = more := by
  have hold : stay.filter (· ∉ h.turns.holders) = [] :=
    List.filter_eq_nil_iff.2 fun p hp => by simpa using hstay hp
  have hnew : more.filter (· ∉ h.turns.holders) = more :=
    List.filter_eq_self.2 fun p hp => by simpa using hmore p hp
  rw [newHolders, hholders, List.filter_append, hold, hnew, List.nil_append]

theorem after_release (h : History) (n : Nat) (id : String) :
    (h.act (.release n)).after id = (h.after id).filter fun other => other ≠ n := by
  show (List.range h.calls.length).filter (fun other => h.calls[other]? = some id ∧
    other ∉ if n < h.calls.length then h.left ++ [n] else h.left) = _
  rw [after, List.filter_filter]
  refine List.filter_congr fun other hother => ?_
  by_cases hn : n < h.calls.length
  · simp [hn, not_or, and_comm, Bool.and_assoc]
  · -- Nobody of that number has asked yet.
    have hne : other ≠ n := fun heq => hn (heq ▸ List.mem_range.1 hother)
    simp [hn, hne]

namespace Valid

theorem handle_lt (hv : h.Valid) {p : Party Nat} (hp : p ∈ h.turns.parties) :
    p.handle < h.calls.length := by
  refine hv.inOrder.handle_lt ?_
  rcases mem_parties.1 hp with hholds | hwaits
  · exact List.mem_append_left _ (hv.inOrder.granted hholds)
  · exact List.mem_append_right _ hwaits

/-- The number of the next one who asks is new. -/
theorem notMem_handles (hv : h.Valid) : h.calls.length ∉ h.turns.parties.map (·.handle) := by
  intro hmem
  obtain ⟨p, hp, heq⟩ := List.mem_map.1 hmem
  exact Nat.ne_of_lt (hv.handle_lt hp) heq

/-! ### Asking -/

theorem after_acquire (hv : h.Valid) (id other : String) :
    (h.act (.acquire id)).after other =
      h.after other ++ if id = other then [h.calls.length] else [] := by
  have hnew : h.calls.length ∉ h.left := fun hmem => Nat.lt_irrefl _ (hv.gone _ hmem)
  show (List.range (h.calls ++ [id]).length).filter
    (fun n => (h.calls ++ [id])[n]? = some other ∧ n ∉ h.left) = _
  rw [List.length_append, List.length_singleton, List.range_succ, List.filter_append]
  congr 1
  · refine List.filter_congr fun n hn => ?_
    rw [List.getElem?_append_left (List.mem_range.1 hn)]
  · by_cases hid : id = other <;> simp [hid, hnew]

theorem inOrder_acquire (hv : h.Valid) (id : String) :
    InOrder (h.act (.acquire id)).calls (h.act (.acquire id)).grants
      (h.act (.acquire id)).turns.holders (h.act (.acquire id)).turns.waiting := by
  obtain ⟨lock, ⟨hnobody, hholders, hwaiting⟩ | ⟨hholders, hwaiting⟩⟩ :=
    acquire_cases hv.orderly h.calls.length id
  · have hgot : h.newHolders (h.turns.acquire h.calls.length id) =
        [⟨h.calls.length, id, lock⟩] := by
      refine newHolders_eq hholders (List.Subset.refl _) fun p hp hheld => ?_
      rw [List.mem_singleton.1 hp] at hheld
      exact hv.notMem_handles (List.mem_map_of_mem (mem_parties.2 (Or.inl hheld)))
    simp only [act, hgot, hholders, hwaiting]
    exact hv.inOrder.grant (fun p hp => hnobody p (mem_parties.2 (Or.inr hp))) lock
  · have hgot : h.newHolders (h.turns.acquire h.calls.length id) = [] :=
      newHolders_eq (hholders.trans (List.append_nil _).symm) (List.Subset.refl _)
        fun p hp => absurd hp List.not_mem_nil
    simp only [act, hgot, hholders, hwaiting, List.append_nil]
    exact hv.inOrder.wait id lock

theorem acquire (hv : h.Valid) (id : String) : (h.act (.acquire id)).Valid where
  orderly := orderly_acquire hv.orderly hv.notMem_handles id
  gone := by
    intro n hn
    show n < (h.calls ++ [id]).length
    rw [List.length_append]
    exact Nat.lt_add_right _ (hv.gone n hn)
  line := by
    intro other
    rw [hv.after_acquire, ← hv.line]
    exact line_acquire hv.orderly h.calls.length id other
  inOrder := hv.inOrder_acquire id

/-! ### Leaving -/

theorem inOrder_release (hv : h.Valid) (n : Nat) :
    InOrder (h.act (.release n)).calls (h.act (.release n)).grants
      (h.act (.release n)).turns.holders (h.act (.release n)).turns.waiting := by
  have hstay : (h.turns.without n).holders ⊆ h.turns.holders := List.filter_sublist.subset
  have hstill : (h.turns.without n).waiting.Sublist h.turns.waiting := List.filter_sublist
  have hleft := hv.inOrder.leave hstay hstill
  rcases release_cases hv.orderly n with heq | ⟨front, next, rest, hwaiting, hfront, heq⟩
  · have hgot : h.newHolders (h.turns.without n) = [] :=
      newHolders_eq (List.append_nil _).symm hstay fun p hp => absurd hp List.not_mem_nil
    simp only [act, heq, hgot, List.append_nil]
    exact hleft
  · have hwaits : ∀ p ∈ front ++ next :: rest, p ∈ h.turns.waiting := fun p hp =>
      hstill.subset (hwaiting ▸ hp)
    have hnext : next ∈ h.turns.waiting := hwaits next (List.mem_append_right _ List.mem_cons_self)
    have hgot : h.newHolders (h.turns.release n) = [next] := by
      refine newHolders_eq (congrArg holders heq) hstay fun p hp hheld => ?_
      rw [List.mem_singleton.1 hp] at hheld
      exact hv.orderly.handle_ne hheld hnext rfl
    simp only [act, hgot]
    rw [heq]
    rw [hwaiting] at hleft
    refine hleft.handOver fun p hp hid => hfront p hp ?_
    exact hv.orderly.lock_eq (mem_parties.2 (Or.inr (hwaits p (List.mem_append_left _ hp))))
      (mem_parties.2 (Or.inr hnext)) hid

theorem release (hv : h.Valid) (n : Nat) : (h.act (.release n)).Valid where
  orderly := orderly_release hv.orderly n
  gone := by
    intro m hm
    show m < h.calls.length
    by_cases hn : n < h.calls.length
    · have hmem : m ∈ h.left ++ [n] := by simpa [act, hn] using hm
      rcases List.mem_append.1 hmem with hold | hnew
      · exact hv.gone m hold
      · rw [List.mem_singleton.1 hnew]
        exact hn
    · exact hv.gone m (by simpa [act, hn] using hm)
  line := by
    intro id
    rw [after_release, ← hv.line]
    exact line_release hv.orderly n id
  inOrder := hv.inOrder_release n

end Valid

theorem Valid.act (hv : h.Valid) (action : Action) : (h.act action).Valid := by
  cases action with
  | acquire id => exact hv.acquire id
  | release n => exact hv.release n

theorem valid_run (actions : List Action) : (run actions).Valid := by
  induction actions using List.reverseRecOn with
  | nil => exact valid_empty
  | append_singleton actions action ih =>
    rw [run_concat]
    exact ih.act action

/-! ## Main statement -/

/-- How turns stand after some actions. -/
structure Fair (h : History) : Prop where
  /-- No two have the turn on one id. -/
  exclusive : (h.turns.holders.map (·.id)).Nodup
  /-- Those who asked and have not left are after the turn, in the order of asking. -/
  line : ∀ id, h.turns.line id = h.after id
  /-- The first of them has it. -/
  front : ∀ p ∈ h.turns.parties,
    p ∈ h.turns.holders ↔ (h.turns.line p.id).head? = some p.handle
  granted : h.turns.holders ⊆ h.grants
  /-- Who got the turn on an id had asked for it before all who got it later. -/
  inOrder : h.grants.Pairwise fun g g' => g.id = g'.id → g.handle < g'.handle
  /-- Nobody got the turn on an id before somebody who asked earlier and still waits. -/
  ahead : ∀ g ∈ h.grants, ∀ w ∈ h.turns.waiting, g.id = w.id → g.handle < w.handle
  /-- Everybody who is after the turn on an id has the only lock of it in the table. -/
  shared : ∀ p ∈ h.turns.parties,
    h.turns.locks.filter (fun entry => entry.1 = p.id) = [(p.id, p.lock)]
  /-- Pruning goes by the number of references. -/
  pruned : h.turns.prune.locks = h.turns.locks.filter fun entry => 1 < h.turns.references entry.2

theorem Valid.fair (hv : h.Valid) : h.Fair where
  exclusive := by
    refine List.Nodup.map_on (fun p hp q hq => hv.orderly.eq_of_id_eq hp hq) ?_
    exact List.Nodup.of_map _ hv.orderly.exclusive
  line := hv.line
  front := by
    intro p hp
    rw [← holds_iff_head?_line hv.orderly hp, holds_iff]
    constructor
    · exact fun hholds => ⟨p, hholds, rfl⟩
    · rintro ⟨holder, hholder, hhandle⟩
      rw [← hv.orderly.eq_of_handle_eq (mem_parties.2 (Or.inl hholder)) hp hhandle]
      exact hholder
  granted := hv.inOrder.granted
  inOrder := (List.pairwise_append.1 hv.inOrder.ordered).1
  ahead := (List.pairwise_append.1 hv.inOrder.ordered).2.2
  shared := by
    intro p hp
    have hentry := hv.orderly.inTable p hp
    have honly : ∀ entry ∈ h.turns.locks, entry.1 = p.id ↔ entry = (p.id, p.lock) :=
      fun entry hmem => ⟨fun hid => List.inj_on_of_nodup_map hv.orderly.ids hmem hentry hid,
        fun heq => congrArg Prod.fst heq⟩
    have honce : h.turns.locks.count (p.id, p.lock) = 1 :=
      List.count_eq_one_of_mem (List.Nodup.of_map _ hv.orderly.ids) hentry
    calc h.turns.locks.filter (fun entry => entry.1 = p.id)
        = h.turns.locks.filter (fun entry => entry = (p.id, p.lock)) :=
          List.filter_congr fun entry hmem => decide_eq_decide.2 (honly entry hmem)
      _ = [(p.id, p.lock)] := by rw [List.filter_eq, honce, List.replicate_one]
  pruned := locks_prune hv.orderly

/-- Nobody comes but with the next number. -/
theorem mem_parties_act {p : Party Nat} {action : Action}
    (hp : p ∈ (h.act action).turns.parties) :
    p ∈ h.turns.parties ∨ p.handle = h.calls.length := by
  cases action with
  | acquire id => exact (mem_parties_acquire hp).imp_right And.left
  | release n => exact Or.inl (parties_release_subset h.turns n hp)

theorem length_calls_le_act (h : History) (action : Action) :
    h.calls.length ≤ (h.act action).calls.length := by
  cases action with
  | acquire id => exact (List.prefix_append h.calls [id]).length_le
  | release n => exact Nat.le_refl _

/-- Whoever is after a turn keeps the lock until he leaves. -/
theorem eq_of_later (actions more : List Action) {p : Party Nat}
    (hp : p ∈ (run actions).turns.parties) :
    p.handle < (run (actions ++ more)).calls.length ∧
      ∀ q ∈ (run (actions ++ more)).turns.parties, q.handle = p.handle → q = p := by
  induction more using List.reverseRecOn with
  | nil =>
    rw [List.append_nil]
    have hv := valid_run actions
    exact ⟨hv.handle_lt hp, fun q hq => hv.orderly.eq_of_handle_eq hq hp⟩
  | append_singleton more action ih =>
    obtain ⟨hlt, hsame⟩ := ih
    rw [← List.append_assoc, run_concat]
    refine ⟨Nat.lt_of_lt_of_le hlt (length_calls_le_act _ action), fun q hq hhandle => ?_⟩
    rcases mem_parties_act hq with hold | hnew
    · exact hsame q hold hhandle
    · exact absurd (hhandle.symm.trans hnew) (Nat.ne_of_lt hlt)

/-- Pruning never splits a turn: whatever is asked for and given back, each id has at most one
turn at a time, which goes round in the order of asking, and those who are after it share one
lock, which they keep until they leave; after somebody has asked for a turn, the table has no
locks but those of ids whose turn somebody is after. -/
theorem fair_run (actions more : List Action) :
    (run actions).Fair ∧
      (∀ id, ∀ entry ∈ (run (actions ++ [.acquire id])).turns.locks,
        ∃ p ∈ (run (actions ++ [.acquire id])).turns.parties, (p.id, p.lock) = entry) ∧
      ∀ p ∈ (run actions).turns.parties, ∀ q ∈ (run (actions ++ more)).turns.parties,
        q.handle = p.handle → q = p := by
  refine ⟨(valid_run actions).fair, fun id entry hentry => ?_,
    fun p hp => (eq_of_later actions more hp).2⟩
  rw [run_concat] at hentry ⊢
  exact exists_party_of_mem_locks_acquire (valid_run actions).orderly hentry

-- The lock of `a` stays while somebody waits for it, and the one of `b` goes when its turn was
-- given back and the next turn is asked for.
example :
    let turns :=
      (run [.acquire "a", .acquire "a", .acquire "b", .release 0, .release 2, .acquire "c"]).turns
    turns.locks = [("a", 0), ("c", 2)] ∧ turns.holders = [⟨1, "a", 0⟩, ⟨3, "c", 2⟩] := by
  decide

end History

end Wiring.Turns
