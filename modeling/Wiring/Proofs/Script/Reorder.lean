import Wiring.Proofs.Script.StableOrder

/-!
# Reordered scripts pass the check whenever they can

Whether the operations of a script can be brought in order at all does not depend on the
order they stand in: what is created has to be new and created once, and what is used has
to be there or be created, `Sortable`.  The stable order then brings them in order, and
whatever else is wrong with a script, it never leaves a use before a creation,
`check_reorder`.
-/

namespace Wiring.Script

variable {present : Presence} {script : Script}

/-- What the operations of a script ask for, in whatever order they stand. -/
structure Sortable (present : Presence) (script : Script) : Prop where
  once : script.additions.Nodup
  new : ∀ t ∈ script.additions, present t = false
  met : ∀ op ∈ script, ∀ t ∈ op.uses, present t = true ∨ t ∈ script.additions

theorem Sortable.perm {s : Script} (h : script.Sortable present) (hperm : script.Perm s) :
    s.Sortable present := by
  have hadditions : script.additions.Perm s.additions := hperm.filterMap Op.creates
  refine ⟨hadditions.nodup_iff.1 h.once, fun t ht => ?_, fun op hop t huse => ?_⟩
  · exact h.new t (hadditions.mem_iff.2 ht)
  · exact (h.met op (hperm.mem_iff.2 hop) t huse).imp_right hadditions.mem_iff.1

theorem nodup_additions_iff :
    script.additions.Nodup ↔
      ∀ i t, (i, t) ∈ script.creations → t ∉ additions (script.take i) := by
  rw [additions, List.Nodup, List.pairwise_filterMap, List.pairwise_iff_getElem]
  constructor
  · intro hpairs i t hcreation hearlier
    obtain ⟨op, hop, hcreates⟩ := mem_creations_iff.1 hcreation
    obtain ⟨j, hji, op', hop', hcreates'⟩ := mem_additions_take_iff.1 hearlier
    obtain ⟨hi, rfl⟩ := List.getElem?_eq_some_iff.1 hop
    obtain ⟨hj, rfl⟩ := List.getElem?_eq_some_iff.1 hop'
    exact hpairs j i hj hi hji t hcreates' t hcreates rfl
  · intro hfirst j i hj hi hji t hcreates t' hcreates' hsame
    have hcreation : (i, t') ∈ script.creations :=
      mem_creations_iff.2 ⟨script[i], List.getElem?_eq_getElem hi, hcreates'⟩
    refine hfirst i t' hcreation (mem_additions_take_iff.2 ⟨j, hji, ?_⟩)
    exact ⟨script[j], List.getElem?_eq_getElem hj, hsame ▸ hcreates⟩

/-- What is in order can be sorted. -/
theorem InOrder.sortable (h : script.InOrder present) : script.Sortable present := by
  obtain ⟨hnew, hthere⟩ := inOrder_iff.1 h
  refine ⟨nodup_additions_iff.2 fun i t hcreation => (hnew i t hcreation).2, fun t ht => ?_,
    fun op hop t huse => ?_⟩
  · obtain ⟨op, hop, hcreates⟩ := List.mem_filterMap.1 ht
    obtain ⟨i, hi⟩ := List.mem_iff_getElem?.1 hop
    exact (hnew i t (mem_creations_iff.2 ⟨op, hi, hcreates⟩)).1
  · obtain ⟨i, hi⟩ := List.mem_iff_getElem?.1 hop
    have husage : (i, t) ∈ script.usages := mem_usages_iff.2 ⟨op, hi, huse⟩
    exact (hthere i t husage).imp_right mem_additions_of_take

/-- What can be sorted is in order after reordering. -/
theorem Sortable.inOrder_reorder (h : script.Sortable present) :
    script.reorder.InOrder present := by
  have hreordered := h.perm (perm_reorder script).symm
  refine inOrder_iff.2 ⟨fun i t hcreation => ?_, fun i t husage => ?_⟩
  · obtain ⟨op, hop, hcreates⟩ := mem_creations_iff.1 hcreation
    have hadded : t ∈ script.reorder.additions :=
      List.mem_filterMap.2 ⟨op, List.mem_of_getElem? hop, hcreates⟩
    exact ⟨hreordered.new t hadded, nodup_additions_iff.1 hreordered.once i t hcreation⟩
  · obtain ⟨op, hop, huse⟩ := mem_usages_iff.1 husage
    have hmem : op ∈ script := (perm_reorder script).mem_iff.1 (List.mem_of_getElem? hop)
    exact (h.met op hmem t huse).imp_right (mem_additions_take_reorder hop huse)

/-- No use stands before a creation in a reordered script, whatever the script. -/
theorem misordered_reorder (script : Script) : script.reorder.misordered = [] := by
  refine misordered_eq_nil_iff.2 fun i t husage j hdefiner => ?_
  obtain ⟨op, hop, huse⟩ := mem_usages_iff.1 husage
  obtain ⟨hcreation, hfirst⟩ := definer_eq_some_iff.1 hdefiner
  obtain ⟨op', hop', hcreates⟩ := mem_creations_iff.1 hcreation
  have hcreated : t ∈ script.additions := by
    have hmem := (perm_reorder script).mem_iff.1 (List.mem_of_getElem? hop')
    exact List.mem_filterMap.2 ⟨op', hmem, hcreates⟩
  -- The first creation cannot come after the use, which finds one before it.
  apply Nat.le_of_not_lt
  intro hlt
  have hearlier := mem_additions_take_reorder hop huse hcreated
  exact hfirst (mem_additions_take_mono (Nat.le_of_lt hlt) hearlier)

/-- A check that fails names a violation. -/
theorem mem_violations_of_check {model : Model} {line : Nat} {fault : ScriptFault}
    (h : script.check model = .error (.invalidScript line fault)) :
    ∃ i, (i, fault) ∈ script.violations model := by
  rw [check] at h
  split at h
  · simp at h
  · rename_i i found rest hviolations
    obtain ⟨-, rfl⟩ := Failure.invalidScript.inj (Except.error.inj h)
    exact ⟨i, by rw [hviolations]; exact List.mem_cons_self⟩

/-- A use before its creation is found where the edges are misordered. -/
theorem misordered_ne_nil_of_mem_violations {model : Model} {i creation : Nat} {t : Target}
    (h : (i, .usedBeforeAdded t creation) ∈ script.violations model) :
    script.misordered ≠ [] := by
  rintro hnone
  simp [violations, hnone] at h

/-- A reordered script passes the check exactly when some order of its operations does,
and the check never finds a use in it before the creation. -/
theorem check_reorder (script : Script) (model : Model) :
    (script.reorder.check model = .ok () ↔
      ∃ s : Script, s.Perm script ∧ s.check model = .ok ()) ∧
    ∀ line target creation,
      script.reorder.check model ≠
        .error (.invalidScript line (.usedBeforeAdded target creation)) := by
  constructor
  · constructor
    · intro hcheck
      exact ⟨script.reorder, perm_reorder script, hcheck⟩
    · rintro ⟨s, hperm, hcheck⟩
      have hsortable := (check_eq_ok_iff_inOrder.1 hcheck).sortable.perm hperm
      exact check_eq_ok_iff_inOrder.2 hsortable.inOrder_reorder
  · intro line target creation hcheck
    obtain ⟨i, hviolation⟩ := mem_violations_of_check hcheck
    exact misordered_ne_nil_of_mem_violations hviolation (misordered_reorder script)

end Wiring.Script
