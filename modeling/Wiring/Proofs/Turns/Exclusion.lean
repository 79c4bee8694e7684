import Mathlib.Data.List.Nodup
import Wiring.Turns

/-!
# Exclusive turns

In every table of turns that arises, the parties of one id share the lock of that id,
and no lock has two holders; so no id has two holders, `Turns.Sound.eq_of_id_eq`.
Asking for a turn and giving one back keep this, `sound_acquire` and `sound_release`:
a lock that is removed from the table is one that no party refers to, and a turn is
passed on only after its holder has gone.
-/

namespace Wiring.Turns

variable {η : Type}

/-- Each id has one lock in the table, each party has the lock of its id, and each
lock has at most one holder. -/
structure Sound (t : Turns η) : Prop where
  ids : (t.locks.map (·.1)).Nodup
  inTable : ∀ party ∈ t.parties, (party.id, party.lock) ∈ t.locks
  exclusive : (t.holders.map (·.lock)).Nodup

theorem sound_empty : Sound ({} : Turns η) where
  ids := List.nodup_nil
  inTable := fun _ hparty => absurd hparty List.not_mem_nil
  exclusive := List.nodup_nil

theorem mem_parties {t : Turns η} {party : Party η} :
    party ∈ t.parties ↔ party ∈ t.holders ∨ party ∈ t.waiting :=
  List.mem_append

theorem isReferred_iff {t : Turns η} {lock : Nat} :
    t.isReferred lock = true ↔ ∃ party ∈ t.parties, party.lock = lock := by
  simp [isReferred]

/-- Two parties of one id have the same lock. -/
theorem Sound.lock_eq {t : Turns η} (ht : t.Sound) {p q : Party η} (hp : p ∈ t.parties)
    (hq : q ∈ t.parties) (hid : p.id = q.id) : p.lock = q.lock := by
  have hentry := List.inj_on_of_nodup_map ht.ids (ht.inTable p hp) (ht.inTable q hq) hid
  exact (Prod.mk.inj hentry).2

/-- The turn on an id has at most one holder. -/
theorem Sound.eq_of_id_eq {t : Turns η} (ht : t.Sound) {p q : Party η}
    (hp : p ∈ t.holders) (hq : q ∈ t.holders) (hid : p.id = q.id) : p = q := by
  have hlock := ht.lock_eq (mem_parties.2 (Or.inl hp)) (mem_parties.2 (Or.inl hq)) hid
  exact List.inj_on_of_nodup_map ht.exclusive hp hq hlock

/-! ## Asking for a turn -/

theorem sound_prune {t : Turns η} (ht : t.Sound) : t.prune.Sound where
  ids := ht.ids.sublist (List.filter_sublist.map _)
  inTable := by
    -- Pruning leaves every lock that a party has.
    intro party hparty
    have hreferred : t.isReferred party.lock = true :=
      isReferred_iff.2 ⟨party, hparty, rfl⟩
    exact List.mem_filter.2 ⟨ht.inTable party hparty, hreferred⟩
  exclusive := ht.exclusive

theorem sound_join {t : Turns η} {party : Party η} (ht : t.Sound)
    (hentry : (party.id, party.lock) ∈ t.locks) : (t.join party).Sound := by
  unfold join
  split
  · refine ⟨ht.ids, fun other hother => ?_, ht.exclusive⟩
    rcases mem_parties.1 hother with hholds | hwaits
    · exact ht.inTable other (mem_parties.2 (Or.inl hholds))
    · rcases List.mem_append.1 hwaits with hold | hnew
      · exact ht.inTable other (mem_parties.2 (Or.inr hold))
      · rw [List.mem_singleton.1 hnew]
        exact hentry
  · rename_i hfree
    refine ⟨ht.ids, fun other hother => ?_, ?_⟩
    · rcases mem_parties.1 hother with hholds | hwaits
      · rcases List.mem_append.1 hholds with hold | hnew
        · exact ht.inTable other (mem_parties.2 (Or.inl hold))
        · rw [List.mem_singleton.1 hnew]
          exact hentry
      · exact ht.inTable other (mem_parties.2 (Or.inr hwaits))
    · -- The lock of the new holder is one that nobody referred to.
      rw [List.map_append, List.map_singleton, List.nodup_append]
      refine ⟨ht.exclusive, List.nodup_singleton _, fun lock hlock other hother heq => ?_⟩
      obtain ⟨holder, hholder, hsame⟩ := List.mem_map.1 hlock
      rw [List.mem_singleton.1 hother] at heq
      exact hfree (isReferred_iff.2
        ⟨holder, mem_parties.2 (Or.inl hholder), hsame.trans heq⟩)

theorem mem_locks_of_lockOf? {t : Turns η} {id : String} {lock : Nat}
    (h : t.lockOf? id = some lock) : (id, lock) ∈ t.locks := by
  obtain ⟨entry, hfind, rfl⟩ := Option.map_eq_some_iff.1 h
  have hid : entry.1 = id := by simpa using List.find?_some hfind
  rw [← hid]
  exact List.mem_of_find?_eq_some hfind

theorem notMem_of_lockOf? {t : Turns η} {id : String} (h : t.lockOf? id = none) :
    id ∉ t.locks.map (·.1) := by
  intro hmem
  obtain ⟨entry, hentry, hid⟩ := List.mem_map.1 hmem
  have hnone := List.find?_eq_none.1 (Option.map_eq_none_iff.1 h) entry hentry
  exact hnone (by simpa using hid)

/-- The lock of an id that is in the table after pruning serves another party. -/
theorem acquire_of_lock {t : Turns η} {id : String} {lock : Nat}
    (h : t.prune.lockOf? id = some lock) (handle : η) :
    t.acquire handle id = t.prune.join ⟨handle, id, lock⟩ := by
  simp only [acquire, h]

/-- An id without a lock after pruning gets a new one. -/
theorem acquire_of_none {t : Turns η} {id : String} (h : t.prune.lockOf? id = none)
    (handle : η) :
    t.acquire handle id =
      { t.prune with
        locks := t.prune.locks ++ [(id, t.nextLock)]
        nextLock := t.nextLock + 1 }.join ⟨handle, id, t.nextLock⟩ := by
  simp only [acquire, h]
  rfl

theorem sound_acquire {t : Turns η} (ht : t.Sound) (handle : η) (id : String) :
    (t.acquire handle id).Sound := by
  have hprune := sound_prune ht
  cases hlock : t.prune.lockOf? id with
  | some lock =>
    rw [acquire_of_lock hlock]
    exact sound_join hprune (mem_locks_of_lockOf? hlock)
  | none =>
    rw [acquire_of_none hlock]
    -- The table has no other lock for the id, and the new one has no party yet.
    refine sound_join ⟨?_, fun party hparty => ?_, hprune.exclusive⟩ ?_
    · rw [List.map_append, List.map_singleton, List.nodup_append]
      refine ⟨hprune.ids, List.nodup_singleton _, fun old hold new hnew heq => ?_⟩
      rw [heq, List.mem_singleton.1 hnew] at hold
      exact notMem_of_lockOf? hlock hold
    · exact List.mem_append_left _ (hprune.inTable party hparty)
    · exact List.mem_append_right _ List.mem_cons_self

theorem mem_holders_join {t : Turns η} {holder : Party η} (h : holder ∈ t.holders)
    (party : Party η) : holder ∈ (t.join party).holders := by
  unfold join
  split
  · exact h
  · exact List.mem_append_left _ h

theorem mem_parties_join {t : Turns η} {party other : Party η}
    (h : other ∈ (t.join party).parties) : other ∈ t.parties ∨ other = party := by
  unfold join at h
  split at h
  · rcases mem_parties.1 h with h | h
    · exact Or.inl (mem_parties.2 (Or.inl h))
    · rcases List.mem_append.1 h with h | h
      · exact Or.inl (mem_parties.2 (Or.inr h))
      · exact Or.inr (List.mem_singleton.1 h)
  · rcases mem_parties.1 h with h | h
    · rcases List.mem_append.1 h with h | h
      · exact Or.inl (mem_parties.2 (Or.inl h))
      · exact Or.inr (List.mem_singleton.1 h)
    · exact Or.inl (mem_parties.2 (Or.inr h))

/-- Asking for a turn takes none away. -/
theorem mem_holders_acquire {t : Turns η} {holder : Party η} (h : holder ∈ t.holders)
    (handle : η) (id : String) : holder ∈ (t.acquire handle id).holders := by
  cases hlock : t.prune.lockOf? id with
  | some lock =>
    rw [acquire_of_lock hlock]
    exact mem_holders_join (t := t.prune) h _
  | none =>
    rw [acquire_of_none hlock]
    refine mem_holders_join ?_ _
    exact h

theorem mem_parties_acquire {t : Turns η} {handle : η} {id : String} {party : Party η}
    (h : party ∈ (t.acquire handle id).parties) :
    party ∈ t.parties ∨ (party.handle = handle ∧ party.id = id) := by
  cases hlock : t.prune.lockOf? id with
  | some lock =>
    rw [acquire_of_lock hlock] at h
    rcases mem_parties_join h with hold | rfl
    · exact Or.inl hold
    · exact Or.inr ⟨rfl, rfl⟩
  | none =>
    rw [acquire_of_none hlock] at h
    rcases mem_parties_join h with hold | rfl
    · exact Or.inl hold
    · exact Or.inr ⟨rfl, rfl⟩

/-! ## Giving a turn back -/

theorem sound_of_subset {t t' : Turns η} (ht : t.Sound) (hlocks : t'.locks = t.locks)
    (hparties : t'.parties ⊆ t.parties) (hexclusive : (t'.holders.map (·.lock)).Nodup) :
    t'.Sound where
  ids := hlocks ▸ ht.ids
  inTable := fun party hparty => hlocks ▸ ht.inTable party (hparties hparty)
  exclusive := hexclusive

theorem parties_grantNext_subset (t : Turns η) (lock : Nat) :
    (t.grantNext lock).parties ⊆ t.parties := by
  unfold grantNext
  split
  · exact List.Subset.refl _
  · rename_i next hfind
    intro party hparty
    rcases mem_parties.1 hparty with hholds | hwaits
    · rcases List.mem_append.1 hholds with hold | hnew
      · exact mem_parties.2 (Or.inl hold)
      · rw [List.mem_singleton.1 hnew]
        exact mem_parties.2 (Or.inr (List.mem_of_find?_eq_some hfind))
    · exact mem_parties.2 (Or.inr (List.mem_of_mem_eraseP hwaits))

theorem holders_subset_grantNext (t : Turns η) (lock : Nat) :
    t.holders ⊆ (t.grantNext lock).holders := by
  unfold grantNext
  split
  · exact List.Subset.refl _
  · exact List.subset_append_left _ _

/-- A lock without a holder can be passed on. -/
theorem sound_grantNext {t : Turns η} {lock : Nat} (ht : t.Sound)
    (hfree : lock ∉ t.holders.map (·.lock)) : (t.grantNext lock).Sound := by
  refine sound_of_subset ht ?_ (parties_grantNext_subset t lock) ?_
  · unfold grantNext
    split <;> rfl
  · unfold grantNext
    split
    · exact ht.exclusive
    · rename_i next hfind
      have hnext : next.lock = lock := by simpa using List.find?_some hfind
      rw [List.map_append, List.map_singleton, List.nodup_append]
      refine ⟨ht.exclusive, List.nodup_singleton _, fun old hold new hnew heq => ?_⟩
      rw [heq, List.mem_singleton.1 hnew, hnext] at hold
      exact hfree hold

variable [DecidableEq η]

theorem holds_iff {t : Turns η} {handle : η} :
    t.holds handle = true ↔ ∃ party ∈ t.holders, party.handle = handle := by
  simp [holds]

theorem sound_release {t : Turns η} (ht : t.Sound) (handle : η) :
    (t.release handle).Sound := by
  unfold release
  split
  · rename_i party hfind
    obtain ⟨hhandle, before, after, hholders, hbefore⟩ := List.find?_eq_some_iff_append.1 hfind
    have hrest : (t.holders.eraseP fun p => p.handle = handle) = before ++ after := by
      rw [hholders, List.eraseP_append_right _ (by simpa using hbefore),
        List.eraseP_cons_of_pos (by simpa using hhandle)]
    -- Without the holder that goes, nobody holds its lock.
    have hexclusive := ht.exclusive
    rw [hholders, List.map_append, List.map_cons, List.nodup_middle,
      List.nodup_cons, ← List.map_append, ← hrest] at hexclusive
    refine sound_grantNext (sound_of_subset ht rfl ?_ hexclusive.2) hexclusive.1
    intro other hother
    rcases mem_parties.1 hother with hholds | hwaits
    · exact mem_parties.2 (Or.inl (List.mem_of_mem_eraseP hholds))
    · exact mem_parties.2 (Or.inr hwaits)
  · refine sound_of_subset ht rfl ?_ ht.exclusive
    intro other hother
    rcases mem_parties.1 hother with hholds | hwaits
    · exact mem_parties.2 (Or.inl hholds)
    · exact mem_parties.2 (Or.inr (List.mem_of_mem_eraseP hwaits))

theorem parties_release_subset (t : Turns η) (handle : η) :
    (t.release handle).parties ⊆ t.parties := by
  unfold release
  split
  · intro other hother
    rcases mem_parties.1 (parties_grantNext_subset _ _ hother) with hholds | hwaits
    · exact mem_parties.2 (Or.inl (List.mem_of_mem_eraseP hholds))
    · exact mem_parties.2 (Or.inr hwaits)
  · intro other hother
    rcases mem_parties.1 hother with hholds | hwaits
    · exact mem_parties.2 (Or.inl hholds)
    · exact mem_parties.2 (Or.inr (List.mem_of_mem_eraseP hwaits))

/-- Giving a turn back takes no turn of others away. -/
theorem mem_holders_release {t : Turns η} {handle : η} {party : Party η}
    (hparty : party ∈ t.holders) (hother : party.handle ≠ handle) :
    party ∈ (t.release handle).holders := by
  unfold release
  split
  · refine holders_subset_grantNext _ _ ?_
    exact (List.mem_eraseP_of_neg (by simpa using hother)).2 hparty
  · exact hparty

end Wiring.Turns
