import Mathlib.Data.Nat.Nth
import Wiring.Component.Draft
import Wiring.Proofs.Binding.Pairs

/-!
# Free keys

The keys of a prefix are numbered, and different numbers have different keys, `specKey_inj`.  A
table uses finitely many keys, so from any number on there is one whose key is free, and the
search for it ends at the first, `isLeast_freeNumber`.

Storing specifications moves on through the numbers and never back, so each specification gets
the next key that was free at first: the one added after `i` others gets the key of the `i`-th
free number, `exists_storeSpecs`.
-/

namespace Wiring

namespace Draft

variable {p : String} {used : Table String}

/-! ## Keys -/

theorem specKey_eq_append (p : String) (n : Nat) : specKey p n = p ++ specKey "" n := by
  rw [specKey, specKey]
  split
  · simp
  · simp [String.append_assoc]

theorem specKey_inj {i j : Nat} : specKey p i = specKey p j ↔ i = j := by
  refine ⟨fun h => ?_, fun h => by rw [h]⟩
  rw [specKey_eq_append p i, specKey_eq_append p j, String.append_right_inj] at h
  -- The first key has no low line, the others end in the number.
  unfold specKey at h
  split at h <;> split at h
  · rename_i hi hj
    rw [hi, hj]
  · simp [← String.toList_inj] at h
  · simp [← String.toList_inj] at h
  · have hdigits : Nat.toDigits 10 i = Nat.toDigits 10 j := by
      simpa [Nat.repr_eq_ofList_toDigits, String.ofList_inj] using h
    simpa using congrArg (fun digits => Nat.ofDigitChars 10 digits 0) hdigits

theorem carries_specKey (p : String) (n : Nat) : carries p (specKey p n) = true := by
  rw [specKey_eq_append, carries, List.isPrefixOf_iff_prefix, String.toList_append]
  exact List.prefix_append _ _

/-! ## Free numbers -/

/-- A number whose key a table does not use. -/
def IsFree (used : Table String) (p : String) (n : Nat) : Prop :=
  used.contains (specKey p n) = false

instance : DecidablePred (IsFree used p) := fun n =>
  inferInstanceAs (Decidable (used.contains (specKey p n) = false))

theorem not_isFree_iff {n : Nat} : ¬ IsFree used p n ↔ specKey p n ∈ used.keys := by
  rw [IsFree, Bool.not_eq_false, Table.mem_keys_iff]

/-- The search passes used keys only, and stops at a free one or at its bound. -/
theorem freeNumber_stops (used : Table String) (p : String) (bound n : Nat) :
    n ≤ freeNumber used p bound n ∧
      (∀ j, n ≤ j → j < freeNumber used p bound n → ¬ IsFree used p j) ∧
      (IsFree used p (freeNumber used p bound n) ∨ freeNumber used p bound n = n + bound) := by
  induction bound generalizing n with
  | zero =>
    rw [freeNumber]
    exact ⟨Nat.le_refl n, fun j hle hlt => by omega, Or.inr rfl⟩
  | succ bound ih =>
    rw [freeNumber]
    split
    · rename_i hused
      obtain ⟨hle, hpassed, hstop⟩ := ih (n + 1)
      refine ⟨by omega, fun j hj hlt => ?_, hstop.imp_right fun hend => by omega⟩
      rcases Nat.eq_or_lt_of_le hj with rfl | hj
      · simp [IsFree, hused]
      · exact hpassed j hj hlt
    · rename_i hfree
      exact ⟨Nat.le_refl n, fun j hle hlt => by omega, Or.inl (by simpa [IsFree] using hfree)⟩

/-- A table cannot use more keys than it has entries. -/
theorem exists_isFree (used : Table String) (p : String) (n : Nat) :
    ∃ j, n ≤ j ∧ j ≤ n + used.entries.length ∧ IsFree used p j := by
  by_contra hnone
  have hused : (List.range' n (used.entries.length + 1)).map (specKey p) ⊆ used.keys := by
    intro key hkey
    obtain ⟨j, hj, rfl⟩ := List.mem_map.1 hkey
    rw [List.mem_range'_1] at hj
    exact not_isFree_iff.1 fun hfree => hnone ⟨j, hj.1, by omega, hfree⟩
  have hnodup : ((List.range' n (used.entries.length + 1)).map (specKey p)).Nodup :=
    List.Nodup.map (fun i j h => specKey_inj.1 h) List.nodup_range'
  have hlength := (List.subperm_of_subset hnodup hused).length_le
  rw [List.length_map, List.length_range', Table.keys, List.length_map] at hlength
  omega

/-- The search finds the first free number. -/
theorem isLeast_freeNumber (used : Table String) (p : String) (n : Nat) :
    IsLeast {j | n ≤ j ∧ IsFree used p j} (freeNumber used p used.entries.length n) := by
  obtain ⟨hle, hpassed, hstop⟩ := freeNumber_stops used p used.entries.length n
  have hfirst : ∀ j, n ≤ j → IsFree used p j → freeNumber used p used.entries.length n ≤ j := by
    intro j hj hfree
    by_contra hlt
    exact hpassed j hj (by omega) hfree
  refine ⟨⟨hle, ?_⟩, fun j hj => hfirst j hj.1 hj.2⟩
  rcases hstop with hfree | hend
  · exact hfree
  · -- At the bound there is no other number left that could be free.
    obtain ⟨j, hj, hbound, hfree⟩ := exists_isFree used p n
    have hsame : freeNumber used p used.entries.length n = j := by
      have hlow := hfirst j hj hfree
      omega
    rwa [hsame]

/-! ## Storing -/

theorem isFree_insert {n j : Nat} {spec : String} (hne : j ≠ n) :
    IsFree (used.insert (specKey p n) spec) p j ↔ IsFree used p j := by
  have hkey : ¬ specKey p j = specKey p n := fun h => hne (specKey_inj.1 h)
  rw [IsFree, IsFree, Table.contains_insert, decide_eq_false hkey, Bool.false_or]

/-- Where the numbers from one on are free as in a given table, the search finds the next of
those that are free there. -/
theorem freeNumber_eq_nth {given : Table String} {n : Nat}
    (hsame : ∀ j, n ≤ j → (IsFree used p j ↔ IsFree given p j)) :
    freeNumber used p used.entries.length n =
      Nat.nth (IsFree given p) (Nat.count (IsFree given p) n) := by
  have hset : {j | n ≤ j ∧ IsFree used p j} = {j | IsFree given p j ∧ n ≤ j} := by
    ext j
    exact ⟨fun h => ⟨(hsame j h.1).1 h.2, h.1⟩, fun h => ⟨h.2, (hsame j h.2).2 h.1⟩⟩
  rw [Nat.nth_count_eq_sInf, ← hset]
  exact (isLeast_freeNumber used p n).csInf_eq.symm

theorem count_freeNumber_succ {given : Table String} {n : Nat}
    (hsame : ∀ j, n ≤ j → (IsFree used p j ↔ IsFree given p j)) :
    Nat.count (IsFree given p) (freeNumber used p used.entries.length n + 1) =
      Nat.count (IsFree given p) n + 1 := by
  obtain ⟨⟨hle, hfree⟩, hfirst⟩ := isLeast_freeNumber used p n
  obtain ⟨k, hk⟩ := Nat.exists_eq_add_of_le hle
  have hpassed : ∀ j < k, ¬ IsFree given p (n + j) := by
    intro j hj hgiven
    have hnext := hfirst ⟨Nat.le_add_right n j, (hsame _ (Nat.le_add_right n j)).2 hgiven⟩
    omega
  have hnone := Nat.count_iff_forall_not.2 hpassed
  rw [Nat.count_succ, if_pos ((hsame _ hle).1 hfree), hk, Nat.count_add, hnone, Nat.add_zero]

/-- From a number on, the specifications are stored under the keys of the free numbers in turn. -/
theorem exists_storeSpecs_from {specs : List String}
    (hreadable : ∀ spec ∈ specs, PortBindings.Readable spec) {given t : Table String} {n : Nat}
    (hsame : ∀ j, n ≤ j → (IsFree t p j ↔ IsFree given p j)) :
    ∃ stored, storeSpecs p n t specs = .ok stored ∧
      stored.entries.Perm (t.entries ++
        (specs.zipIdx (Nat.count (IsFree given p) n)).map fun numbered =>
          (specKey p (Nat.nth (IsFree given p) numbered.2), numbered.1)) := by
  induction specs generalizing n t with
  | nil => exact ⟨t, rfl, by simp⟩
  | cons spec specs ih =>
    obtain ⟨⟨entries, hparse⟩, hspecs⟩ := List.forall_mem_cons.1 hreadable
    obtain ⟨⟨hle, hfree⟩, -⟩ := isLeast_freeNumber t p n
    have hrest : ∀ j, freeNumber t p t.entries.length n + 1 ≤ j →
        (IsFree (t.insert (specKey p (freeNumber t p t.entries.length n)) spec) p j ↔
          IsFree given p j) := by
      intro j hj
      rw [isFree_insert (by omega)]
      exact hsame j (by omega)
    obtain ⟨stored, hstored, hperm⟩ := ih hspecs hrest
    refine ⟨stored, ?_, ?_⟩
    · rw [storeSpecs, hparse]
      exact hstored
    · have hinsert := Table.perm_insertEntry (Table.findEntry_eq_none_iff.2
        (Table.contains_eq_false_iff.1 hfree)) spec
      rw [count_freeNumber_succ hsame] at hperm
      rw [List.zipIdx_cons, List.map_cons, ← freeNumber_eq_nth hsame]
      exact (hperm.trans (hinsert.append_right _)).trans List.perm_middle.symm

/-- The specifications are stored under the keys that are free at first, in turn. -/
theorem exists_storeSpecs {specs : List String}
    (hreadable : ∀ spec ∈ specs, PortBindings.Readable spec) (p : String) (t : Table String) :
    ∃ stored, storeSpecs p 0 t specs = .ok stored ∧
      stored.entries.Perm (t.entries ++ specs.zipIdx.map fun numbered =>
        (specKey p (Nat.nth (IsFree t p) numbered.2), numbered.1)) := by
  obtain ⟨stored, hstored, hperm⟩ :=
    exists_storeSpecs_from (p := p) (t := t) (n := 0) hreadable fun _ _ => Iff.rfl
  rw [Nat.count_zero] at hperm
  exact ⟨stored, hstored, hperm⟩

/-- What is stored can be read. -/
theorem readable_of_storeSpecs {specs : List String} {n : Nat} {t stored : Table String}
    (h : storeSpecs p n t specs = .ok stored) : ∀ spec ∈ specs, PortBindings.Readable spec := by
  induction specs generalizing n t with
  | nil => simp
  | cons spec specs ih =>
    rw [storeSpecs] at h
    split at h
    · simp at h
    · rename_i entries hparse
      exact List.forall_mem_cons.2 ⟨⟨entries, hparse⟩, ih h⟩

end Draft

end Wiring
