import Wiring.Proofs.Turns.Exclusion

/-!
# Lines for turns

Everybody who has or waits for the turn on an id stands in the line of that id, the holder
in front and the others in the order in which they asked.  Asking for a turn adds to the
end of one line, `line_acquire`, giving a turn back or no longer waiting for it takes out of
the lines, `line_release`, and whoever is in front has the turn, `holds_iff_head?_line`.

This needs more than exclusive turns: a lock serves one id, nobody stands in line twice, and
nobody waits for a lock that nobody holds.  `Orderly` says so, and asking and giving back
keep it.
-/

namespace Wiring.Turns

variable {η : Type}

/-- Who has or waits for the turn on an id: the holder, then the others as they asked. -/
def line (t : Turns η) (id : String) : List η :=
  (t.parties.filter fun party => party.id = id).map (·.handle)

/-- Turns are exclusive, each lock serves one id, nobody stands in line twice, and what
somebody waits for is held by somebody. -/
structure Orderly (t : Turns η) : Prop extends t.Sound where
  separate : (t.locks.map (·.2)).Nodup
  numbered : ∀ entry ∈ t.locks, entry.2 < t.nextLock
  single : (t.parties.map (·.handle)).Nodup
  served : ∀ party ∈ t.waiting, ∃ holder ∈ t.holders, holder.lock = party.lock

theorem orderly_empty : Orderly ({} : Turns η) where
  toSound := sound_empty
  separate := List.nodup_nil
  numbered := fun _ hentry => absurd hentry List.not_mem_nil
  single := List.nodup_nil
  served := fun _ hparty => absurd hparty List.not_mem_nil

theorem mem_line_iff {t : Turns η} {id : String} {handle : η} :
    handle ∈ t.line id ↔ ∃ party ∈ t.parties, party.id = id ∧ party.handle = handle := by
  simp [line, and_assoc]

/-- Two parties of one lock are after the same turn. -/
theorem Orderly.id_eq {t : Turns η} (ht : t.Orderly) {p q : Party η} (hp : p ∈ t.parties)
    (hq : q ∈ t.parties) (hlock : p.lock = q.lock) : p.id = q.id := by
  have hentry :=
    List.inj_on_of_nodup_map ht.separate (ht.inTable p hp) (ht.inTable q hq) hlock
  exact (Prod.mk.inj hentry).1

/-- A party is known by its handle. -/
theorem Orderly.eq_of_handle_eq {t : Turns η} (ht : t.Orderly) {p q : Party η}
    (hp : p ∈ t.parties) (hq : q ∈ t.parties) (hhandle : p.handle = q.handle) : p = q :=
  List.inj_on_of_nodup_map ht.single hp hq hhandle

/-- Who holds a turn does not wait for one. -/
theorem Orderly.handle_ne {t : Turns η} (ht : t.Orderly) {p q : Party η}
    (hp : p ∈ t.holders) (hq : q ∈ t.waiting) : p.handle ≠ q.handle := by
  have hsingle := ht.single
  rw [parties, List.map_append, List.nodup_append] at hsingle
  exact hsingle.2.2 _ (List.mem_map_of_mem hp) _ (List.mem_map_of_mem hq)

/-! ## Asking for a turn -/

theorem orderly_prune {t : Turns η} (ht : t.Orderly) : t.prune.Orderly where
  toSound := sound_prune ht.toSound
  separate := ht.separate.sublist (List.filter_sublist.map _)
  numbered := fun entry hentry => ht.numbered entry (List.mem_filter.1 hentry).1
  single := ht.single
  served := ht.served

theorem perm_parties_join (t : Turns η) (party : Party η) :
    (t.join party).parties.Perm (party :: t.parties) := by
  unfold join
  split
  · rw [parties, parties, ← List.append_assoc]
    exact List.perm_append_singleton _ _
  · rw [parties, parties, List.append_assoc]
    exact List.perm_middle

theorem orderly_join {t : Turns η} {party : Party η} (ht : t.Orderly)
    (hentry : (party.id, party.lock) ∈ t.locks)
    (hnew : party.handle ∉ t.parties.map (·.handle)) : (t.join party).Orderly where
  toSound := sound_join ht.toSound hentry
  separate := by
    unfold join
    split <;> exact ht.separate
  numbered := by
    unfold join
    split <;> exact ht.numbered
  single := by
    have hperm := (perm_parties_join t party).map (·.handle)
    rw [List.map_cons] at hperm
    exact hperm.nodup_iff.2 (List.nodup_cons.2 ⟨hnew, ht.single⟩)
  served := by
    unfold join
    split
    · rename_i hreferred
      intro other hother
      rcases List.mem_append.1 hother with hold | hlast
      · exact ht.served other hold
      · -- Somebody refers to the lock, and if not as its holder, then after a holder.
        obtain ⟨first, hfirst, hlock⟩ := isReferred_iff.1 hreferred
        rw [List.mem_singleton.1 hlast, ← hlock]
        rcases mem_parties.1 hfirst with hholds | hwaits
        · exact ⟨first, hholds, rfl⟩
        · exact ht.served first hwaits
    · intro other hother
      obtain ⟨holder, hholder, hlock⟩ := ht.served other hother
      exact ⟨holder, List.mem_append_left _ hholder, hlock⟩

/-- The table, as it is when somebody joins the line of an id after pruning. -/
theorem exists_join_of_acquire {t : Turns η} (ht : t.Orderly) (handle : η) (id : String) :
    ∃ (t' : Turns η) (lock : Nat), t'.Orderly ∧ t'.holders = t.holders ∧
      t'.waiting = t.waiting ∧ (id, lock) ∈ t'.locks ∧
      t.acquire handle id = t'.join ⟨handle, id, lock⟩ := by
  have hprune := orderly_prune ht
  cases hlock : t.prune.lockOf? id with
  | some lock =>
    exact ⟨t.prune, lock, hprune, rfl, rfl, mem_locks_of_lockOf? hlock,
      acquire_of_lock hlock handle⟩
  | none =>
    refine ⟨{ t.prune with
      locks := t.prune.locks ++ [(id, t.nextLock)]
      nextLock := t.nextLock + 1 }, t.nextLock, ⟨⟨?_, ?_, hprune.exclusive⟩, ?_, ?_,
        hprune.single, hprune.served⟩, rfl, rfl, ?_, acquire_of_none hlock handle⟩
    · rw [List.map_append, List.map_singleton, List.nodup_append]
      refine ⟨hprune.ids, List.nodup_singleton _, fun old hold new hnew heq => ?_⟩
      rw [heq, List.mem_singleton.1 hnew] at hold
      exact notMem_of_lockOf? hlock hold
    · exact fun party hparty => List.mem_append_left _ (hprune.inTable party hparty)
    · rw [List.map_append, List.map_singleton, List.nodup_append]
      refine ⟨hprune.separate, List.nodup_singleton _, fun old hold new hnew heq => ?_⟩
      -- The new lock has a number that no lock had before.
      obtain ⟨entry, hentry, rfl⟩ := List.mem_map.1 hold
      have hbelow := hprune.numbered entry hentry
      rw [heq, List.mem_singleton.1 hnew] at hbelow
      exact Nat.lt_irrefl _ hbelow
    · intro entry hentry
      rcases List.mem_append.1 hentry with hold | hnew
      · exact Nat.lt_succ_of_lt (hprune.numbered entry hold)
      · rw [List.mem_singleton.1 hnew]
        exact Nat.lt_succ_self _
    · exact List.mem_append_right _ List.mem_cons_self

theorem parties_congr {t t' : Turns η} (hholders : t'.holders = t.holders)
    (hwaiting : t'.waiting = t.waiting) : t'.parties = t.parties := by
  rw [parties, parties, hholders, hwaiting]

theorem orderly_acquire {t : Turns η} (ht : t.Orderly) {handle : η}
    (hnew : handle ∉ t.parties.map (·.handle)) (id : String) :
    (t.acquire handle id).Orderly := by
  obtain ⟨t', lock, ht', hholders, hwaiting, hentry, heq⟩ := exists_join_of_acquire ht handle id
  rw [heq]
  refine orderly_join ht' hentry ?_
  rw [parties_congr hholders hwaiting]
  exact hnew

theorem perm_parties_acquire {t : Turns η} (ht : t.Orderly) (handle : η) (id : String) :
    ∃ lock, (t.acquire handle id).parties.Perm (⟨handle, id, lock⟩ :: t.parties) := by
  obtain ⟨t', lock, -, hholders, hwaiting, -, heq⟩ := exists_join_of_acquire ht handle id
  refine ⟨lock, ?_⟩
  rw [heq, ← parties_congr hholders hwaiting]
  exact perm_parties_join t' _

theorem mem_waiting_acquire {t : Turns η} (ht : t.Orderly) {handle : η} {id : String}
    {party : Party η} (h : party ∈ (t.acquire handle id).waiting) :
    party ∈ t.waiting ∨ party.handle = handle := by
  obtain ⟨t', lock, -, -, hwaiting, -, heq⟩ := exists_join_of_acquire ht handle id
  rw [heq, join] at h
  split at h
  · rcases List.mem_append.1 h with hold | hnew
    · exact Or.inl (hwaiting ▸ hold)
    · exact Or.inr (congrArg Party.handle (List.mem_singleton.1 hnew))
  · exact Or.inl (hwaiting ▸ h)

theorem line_join {t : Turns η} (ht : t.Sound) {party : Party η}
    (hentry : (party.id, party.lock) ∈ t.locks) (id : String) :
    (t.join party).line id = t.line id ++ if party.id = id then [party.handle] else [] := by
  unfold join
  split
  · rw [line, line, parties, parties, ← List.append_assoc, List.filter_append, List.map_append]
    by_cases hid : party.id = id <;> simp [hid]
  · rename_i hfree
    by_cases hid : party.id = id
    · -- Nobody is after this turn, since that would refer to its lock.
      have hnobody : ∀ other ∈ t.parties, ¬ other.id = id := by
        intro other hother hsame
        refine hfree (isReferred_iff.2 ⟨other, hother, ?_⟩)
        have hlocks :=
          List.inj_on_of_nodup_map ht.ids (ht.inTable other hother) hentry (hsame.trans hid.symm)
        exact (Prod.mk.inj hlocks).2
      have hholders : t.holders.filter (fun other => other.id = id) = [] :=
        List.filter_eq_nil_iff.2 fun other hother => by
          simpa using hnobody other (mem_parties.2 (Or.inl hother))
      have hwaiting : t.waiting.filter (fun other => other.id = id) = [] :=
        List.filter_eq_nil_iff.2 fun other hother => by
          simpa using hnobody other (mem_parties.2 (Or.inr hother))
      simp [line, parties, List.filter_append, hholders, hwaiting, hid]
    · simp [line, parties, List.filter_append, hid]

/-- Asking for a turn adds to the end of its line. -/
theorem line_acquire {t : Turns η} (ht : t.Orderly) (handle : η) (id other : String) :
    (t.acquire handle id).line other =
      t.line other ++ if id = other then [handle] else [] := by
  obtain ⟨t', lock, ht', hholders, hwaiting, hentry, heq⟩ := exists_join_of_acquire ht handle id
  rw [heq, line_join ht'.toSound hentry, line, line, parties_congr hholders hwaiting]

/-! ## Giving a turn back -/

/-- What passing a lock on does to the parties, when somebody waits for it. -/
theorem grantNext_eq (t : Turns η) (lock : Nat) :
    (∀ party ∈ t.waiting, party.lock ≠ lock) ∧ t.grantNext lock = t ∨
      ∃ front next rest, t.waiting = front ++ next :: rest ∧ next.lock = lock ∧
        (∀ party ∈ front, party.lock ≠ lock) ∧
        t.grantNext lock =
          { t with holders := t.holders ++ [next], waiting := front ++ rest } := by
  unfold grantNext
  cases hfind : t.waiting.find? fun party => party.lock = lock with
  | none =>
    refine Or.inl ⟨fun party hparty => ?_, rfl⟩
    simpa using List.find?_eq_none.1 hfind party hparty
  | some next =>
    obtain ⟨hnext, front, rest, hwaiting, hfront⟩ := List.find?_eq_some_iff_append.1 hfind
    refine Or.inr ⟨front, next, rest, hwaiting, by simpa using hnext, by simpa using hfront, ?_⟩
    rw [hwaiting, List.eraseP_append_right _ (by simpa using hfront),
      List.eraseP_cons_of_pos (by simpa using hnext)]

theorem perm_parties_grantNext (t : Turns η) (lock : Nat) :
    (t.grantNext lock).parties.Perm t.parties := by
  rcases grantNext_eq t lock with ⟨-, heq⟩ | ⟨front, next, rest, hwaiting, -, -, heq⟩
  · rw [heq]
  · rw [heq, parties, parties, hwaiting, List.append_assoc, List.singleton_append]
    exact List.perm_middle.symm.append_left _

/-- Passing a lock on leaves the lines as they are. -/
theorem line_grantNext {t : Turns η} (ht : t.Sound) {lock : Nat} (id : String) :
    (t.grantNext lock).line id = t.line id := by
  rcases grantNext_eq t lock with ⟨-, heq⟩ | ⟨front, next, rest, hwaiting, hnext, hfront, heq⟩
  · rw [heq]
  · rw [heq, line, line, parties, parties, hwaiting]
    by_cases hid : next.id = id
    · -- Those who asked before the next holder are after other turns.
      have hothers : front.filter (fun party => party.id = id) = [] := by
        refine List.filter_eq_nil_iff.2 fun party hparty => ?_
        have hmem : party ∈ t.parties := by
          rw [mem_parties, hwaiting]
          exact Or.inr (List.mem_append_left _ hparty)
        have hmem' : next ∈ t.parties := by
          rw [mem_parties, hwaiting]
          exact Or.inr (List.mem_append_right _ List.mem_cons_self)
        have hne : ¬ party.id = id := fun hsame =>
          hfront party hparty ((ht.lock_eq hmem hmem' (hsame.trans hid.symm)).trans hnext)
        simpa using hne
      simp only [List.append_assoc, List.filter_append, hothers, List.nil_append]
      rw [← List.filter_append, List.singleton_append]
    · simp [List.filter_append, hid]

variable [DecidableEq η]

/-- The table without somebody, when no lock is passed on. -/
def without (t : Turns η) (handle : η) : Turns η :=
  { t with
    holders := t.holders.filter fun party => party.handle ≠ handle
    waiting := t.waiting.filter fun party => party.handle ≠ handle }

theorem parties_without (t : Turns η) (handle : η) :
    (t.without handle).parties = t.parties.filter fun party => party.handle ≠ handle :=
  (List.filter_append _ _).symm

theorem eraseP_eq_filter {parties : List (Party η)} (h : (parties.map (·.handle)).Nodup)
    (handle : η) :
    (parties.eraseP fun party => party.handle = handle) =
      parties.filter fun party => party.handle ≠ handle := by
  induction parties with
  | nil => rfl
  | cons first rest ih =>
    rw [List.map_cons, List.nodup_cons] at h
    by_cases hfirst : first.handle = handle
    · rw [List.eraseP_cons_of_pos (by simpa using hfirst),
        List.filter_cons_of_neg (by simpa using hfirst)]
      refine (List.filter_eq_self.2 fun party hparty => ?_).symm
      have hne : party.handle ≠ handle := fun hsame =>
        h.1 (List.mem_map.2 ⟨party, hparty, hsame.trans hfirst.symm⟩)
      simpa using hne
    · rw [List.eraseP_cons_of_neg (by simpa using hfirst),
        List.filter_cons_of_pos (by simpa using hfirst), ih h.2]

theorem filter_handle_eq_self {parties : List (Party η)} {handle : η}
    (h : ∀ party ∈ parties, party.handle ≠ handle) :
    (parties.filter fun party => party.handle ≠ handle) = parties :=
  List.filter_eq_self.2 fun party hparty => by simpa using h party hparty

/-- Who gives a turn back is gone, and the lock is passed on; who only waited is gone. -/
theorem release_eq {t : Turns η} (ht : t.Orderly) (handle : η) :
    (∃ party ∈ t.holders, party.handle = handle ∧
        t.release handle = (t.without handle).grantNext party.lock) ∨
      (∀ party ∈ t.holders, party.handle ≠ handle) ∧ t.release handle = t.without handle := by
  have hsingle := ht.single
  rw [parties, List.map_append, List.nodup_append] at hsingle
  unfold release
  cases hfind : t.holders.find? fun party => party.handle = handle with
  | some party =>
    have hparty := List.mem_of_find?_eq_some hfind
    have hhandle : party.handle = handle := by simpa using List.find?_some hfind
    refine Or.inl ⟨party, hparty, hhandle, ?_⟩
    have hothers := filter_handle_eq_self fun other hother =>
      hhandle ▸ (ht.handle_ne hparty hother).symm
    dsimp only
    rw [without, eraseP_eq_filter hsingle.1, hothers]
  | none =>
    have hnone : ∀ party ∈ t.holders, party.handle ≠ handle := fun party hparty => by
      simpa using List.find?_eq_none.1 hfind party hparty
    refine Or.inr ⟨hnone, ?_⟩
    dsimp only
    rw [without, eraseP_eq_filter hsingle.2.1, filter_handle_eq_self hnone]

theorem sound_without {t : Turns η} (ht : t.Sound) (handle : η) : (t.without handle).Sound := by
  refine sound_of_subset ht rfl ?_ (ht.exclusive.sublist (List.filter_sublist.map _))
  rw [parties_without]
  exact List.filter_sublist.subset

theorem line_without (t : Turns η) (handle : η) (id : String) :
    (t.without handle).line id = (t.line id).filter fun other => other ≠ handle := by
  rw [line, line, parties_without, List.filter_map, List.filter_filter, List.filter_filter]
  refine congrArg _ (List.filter_congr fun party _ => ?_)
  exact Bool.and_comm _ _

/-- Giving a turn back, or waiting no longer, takes out of the lines. -/
theorem line_release {t : Turns η} (ht : t.Orderly) (handle : η) (id : String) :
    (t.release handle).line id = (t.line id).filter fun other => other ≠ handle := by
  rcases release_eq ht handle with ⟨party, -, -, heq⟩ | ⟨-, heq⟩
  · rw [heq, line_grantNext (sound_without ht.toSound handle), line_without]
  · rw [heq, line_without]

theorem perm_parties_release {t : Turns η} (ht : t.Orderly) (handle : η) :
    (t.release handle).parties.Perm (t.parties.filter fun party => party.handle ≠ handle) := by
  rcases release_eq ht handle with ⟨party, -, -, heq⟩ | ⟨-, heq⟩
  · rw [heq, ← parties_without]
    exact perm_parties_grantNext _ _
  · rw [heq, ← parties_without]

theorem waiting_release_subset {t : Turns η} (ht : t.Orderly) (handle : η) :
    (t.release handle).waiting ⊆ t.waiting := by
  have hwithout : (t.without handle).waiting ⊆ t.waiting := List.filter_sublist.subset
  rcases release_eq ht handle with ⟨party, -, -, heq⟩ | ⟨-, heq⟩
  · rcases grantNext_eq (t.without handle) party.lock with
      ⟨-, hsame⟩ | ⟨front, next, rest, hwaiting, -, -, hnext⟩
    · rw [heq, hsame]
      exact hwithout
    · rw [hwaiting] at hwithout
      rw [heq, hnext]
      refine fun other hother => hwithout ?_
      rcases List.mem_append.1 hother with hfront | hrest
      · exact List.mem_append_left _ hfront
      · exact List.mem_append_right _ (List.mem_cons_of_mem _ hrest)
  · rw [heq]
    exact hwithout

theorem served_release {t : Turns η} (ht : t.Orderly) (handle : η) :
    ∀ party ∈ (t.release handle).waiting,
      ∃ holder ∈ (t.release handle).holders, holder.lock = party.lock := by
  intro party hparty
  obtain ⟨holder, hholder, hlock⟩ := ht.served party (waiting_release_subset ht handle hparty)
  by_cases hgone : holder.handle = handle
  · rcases release_eq ht handle with ⟨party', hparty', hhandle, heq⟩ | ⟨hnone, -⟩
    · -- The holder has gone, and whoever was next has the lock now.
      have hsame := ht.eq_of_handle_eq (mem_parties.2 (Or.inl hholder))
        (mem_parties.2 (Or.inl hparty')) (hgone.trans hhandle.symm)
      rw [heq] at hparty ⊢
      rcases grantNext_eq (t.without handle) party'.lock with
        ⟨hnobody, hstays⟩ | ⟨front, next, rest, -, hnext, -, hpasses⟩
      · rw [hstays] at hparty
        exact absurd (hlock.symm.trans (congrArg Party.lock hsame)) (hnobody party hparty)
      · rw [hpasses]
        refine ⟨next, List.mem_append_right _ List.mem_cons_self, ?_⟩
        rw [hnext, ← hsame, hlock]
    · exact absurd hgone (hnone holder hholder)
  · exact ⟨holder, mem_holders_release hholder hgone, hlock⟩

theorem orderly_release {t : Turns η} (ht : t.Orderly) (handle : η) :
    (t.release handle).Orderly where
  toSound := sound_release ht.toSound handle
  separate := by
    rcases release_eq ht handle with ⟨party, -, -, heq⟩ | ⟨-, heq⟩
    · rw [heq]
      unfold grantNext
      split <;> exact ht.separate
    · rw [heq]
      exact ht.separate
  numbered := by
    rcases release_eq ht handle with ⟨party, -, -, heq⟩ | ⟨-, heq⟩
    · rw [heq]
      unfold grantNext
      split <;> exact ht.numbered
    · rw [heq]
      exact ht.numbered
  single := by
    have hperm := (perm_parties_release ht handle).map (·.handle)
    exact hperm.nodup_iff.2 (ht.single.sublist (List.filter_sublist.map _))
  served := served_release ht handle

/-! ## The front of a line -/

/-- The holder of a turn stands in front of its line, and whoever stands there holds it. -/
theorem holds_iff_head?_line {t : Turns η} (ht : t.Orderly) {party : Party η}
    (hparty : party ∈ t.parties) :
    t.holds party.handle = true ↔ (t.line party.id).head? = some party.handle := by
  constructor
  · intro hholds
    obtain ⟨holder, hholder, hhandle⟩ := holds_iff.1 hholds
    obtain rfl := ht.eq_of_handle_eq (mem_parties.2 (Or.inl hholder)) hparty hhandle
    -- No other holder is after this turn, so the filtered holders begin with this one.
    obtain ⟨before, after, hholders⟩ := List.append_of_mem hholder
    have hbefore : before.filter (fun other => other.id = holder.id) = [] := by
      refine List.filter_eq_nil_iff.2 fun other hother => ?_
      have hne : ¬ other.id = holder.id := by
        intro hid
        have hmem : other ∈ t.holders := hholders ▸ List.mem_append_left _ hother
        have hsame := ht.eq_of_id_eq hmem hholder hid
        have hexclusive := ht.exclusive
        rw [hholders, List.map_append, List.nodup_append] at hexclusive
        exact hexclusive.2.2 _ (List.mem_map_of_mem hother) _
          (List.mem_map_of_mem List.mem_cons_self) (congrArg Party.lock hsame)
      simpa using hne
    simp [line, parties, hholders, List.filter_append, hbefore]
  · intro hhead
    apply holds_iff.2
    rcases mem_parties.1 hparty with hholds | hwaits
    · exact ⟨party, hholds, rfl⟩
    · -- Somebody else holds the lock and stands in front of who waits for it.
      obtain ⟨holder, hholder, hlock⟩ := ht.served party hwaits
      have hid := ht.id_eq (mem_parties.2 (Or.inl hholder)) hparty hlock
      have hmem : holder ∈ t.holders.filter fun other => other.id = party.id :=
        List.mem_filter.2 ⟨hholder, by simpa using hid⟩
      obtain ⟨first, rest, hfirst⟩ := List.exists_cons_of_ne_nil (List.ne_nil_of_mem hmem)
      have hfirstmem : first ∈ t.holders :=
        (List.mem_filter.1 (hfirst ▸ List.mem_cons_self : first ∈ _)).1
      rw [line, parties, List.filter_append, hfirst, List.cons_append, List.map_cons,
        List.head?_cons] at hhead
      exact ⟨first, hfirstmem, Option.some.inj hhead⟩

/-- Who has the turn on an id stands in front of the others. -/
theorem Orderly.line_eq_cons {t : Turns η} (ht : t.Orderly) {party : Party η}
    (hparty : party ∈ t.holders) : ∃ rest, t.line party.id = party.handle :: rest := by
  have hhead := (holds_iff_head?_line ht (mem_parties.2 (Or.inl hparty))).1
    (holds_iff.2 ⟨party, hparty, rfl⟩)
  obtain ⟨rest, hline⟩ := List.head?_eq_some_iff.1 hhead
  exact ⟨rest, hline⟩

omit [DecidableEq η] in
/-- Nobody stands in one line twice. -/
theorem Orderly.nodup_line {t : Turns η} (ht : t.Orderly) (id : String) : (t.line id).Nodup :=
  ht.single.sublist (List.filter_sublist.map _)

end Wiring.Turns
