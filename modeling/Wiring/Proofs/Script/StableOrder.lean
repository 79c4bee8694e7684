import Wiring.Proofs.Script.InOrder

/-!
# The stable order

Placing the operations of a script one at a time never gets stuck: what depends on a
creation creates nothing, so either a creation remains, or nothing that remains waits for
another.  Hence the stable order holds every position once, `perm_stableOrder`, and no
operation stands in it before the creation that it depends on, `pairwise_stableOrder`.

The reordered script has the same operations, `perm_reorder`, and whatever an operation of
it uses and the script creates at all has been created by then,
`mem_additions_take_reorder`.
-/

namespace Wiring.Script

/-! ## Placing -/

/-- No edge leads to where another one begins. -/
def Bipartite (edges : List Edge) : Prop :=
  ∀ edge ∈ edges, ∀ other ∈ edges, edge.creator ≠ other.user

variable {edges : List Edge} {remaining : List Nat}

theorem ready_iff {i : Nat} :
    ready edges remaining i = true ↔
      ∀ edge ∈ edges, edge.user = i → edge.creator ∉ remaining := by
  simp only [ready, List.all_eq_true, Bool.not_eq_true', Bool.and_eq_false_imp,
    decide_eq_true_eq, List.contains_eq_mem, decide_eq_false_iff_not]

/-- As long as something remains, something is ready. -/
theorem exists_ready (hedges : Bipartite edges) (hne : remaining ≠ []) :
    ∃ i ∈ remaining, ready edges remaining i = true := by
  by_cases hcreation : ∃ i ∈ remaining, ∀ edge ∈ edges, edge.user ≠ i
  · obtain ⟨i, hi, huser⟩ := hcreation
    exact ⟨i, hi, ready_iff.2 fun edge hedge hsame => absurd hsame (huser edge hedge)⟩
  · -- Only users remain, so no creation does.
    obtain ⟨i, hi⟩ := List.exists_mem_of_ne_nil remaining hne
    refine ⟨i, hi, ready_iff.2 fun edge hedge _ hcreator => hcreation ?_⟩
    exact ⟨edge.creator, hcreator, fun other hother => Ne.symm (hedges edge hedge other hother)⟩

theorem mem_of_mem_place {i : Nat} (h : i ∈ place edges remaining) : i ∈ remaining := by
  fun_induction place edges remaining with
  | case1 remaining hnone => simp at h
  | case2 remaining j hfound ih =>
    rcases List.mem_cons.1 h with rfl | h
    · exact List.mem_of_find?_eq_some hfound
    · exact List.mem_of_mem_erase (ih h)

theorem perm_place (hedges : Bipartite edges) (remaining : List Nat) :
    (place edges remaining).Perm remaining := by
  fun_induction place edges remaining with
  | case1 remaining hnone =>
    have hempty : remaining = [] := by
      apply Classical.byContradiction
      intro hne
      obtain ⟨i, hi, hready⟩ := exists_ready hedges hne
      exact List.find?_eq_none.1 hnone i hi hready
    rw [hempty]
  | case2 remaining i hfound ih =>
    have hi : i ∈ remaining := List.mem_of_find?_eq_some hfound
    exact (ih.cons i).trans (List.perm_cons_erase hi).symm

/-- Nothing is placed before the creation that it depends on. -/
theorem pairwise_place (edges : List Edge) (remaining : List Nat) :
    (place edges remaining).Pairwise fun i j => ∀ edge ∈ edges, edge.user = i →
      edge.creator ≠ j := by
  fun_induction place edges remaining with
  | case1 remaining hnone => exact List.Pairwise.nil
  | case2 remaining i hfound ih =>
    refine List.Pairwise.cons (fun j hj edge hedge huser hcreator => ?_) ih
    have hready := ready_iff.1 (List.find?_some hfound) edge hedge huser
    exact hready (hcreator ▸ List.mem_of_mem_erase (mem_of_mem_place hj))

/-! ## The positions of a script -/

variable {script : Script}

theorem mem_edges_iff {edge : Edge} :
    edge ∈ script.edges ↔
      (edge.user, edge.target) ∈ script.usages ∧
        script.definer edge.target = some edge.creator := by
  simp only [edges, List.mem_filterMap, Option.map_eq_some_iff]
  constructor
  · rintro ⟨⟨i, t⟩, husage, j, hdefiner, rfl⟩
    exact ⟨husage, hdefiner⟩
  · rintro ⟨husage, hdefiner⟩
    exact ⟨(edge.user, edge.target), husage, edge.creator, hdefiner, rfl⟩

/-- An operation that an edge leads to uses something, so it creates nothing. -/
theorem bipartite_edges (script : Script) : Bipartite script.edges := by
  intro edge hedge other hother hsame
  obtain ⟨-, hdefiner⟩ := mem_edges_iff.1 hedge
  obtain ⟨op, hop, hcreates⟩ := mem_creations_iff.1 (definer_eq_some_iff.1 hdefiner).1
  obtain ⟨op', hop', huse⟩ := mem_usages_iff.1 (mem_edges_iff.1 hother).1
  rw [hsame, hop'] at hop
  obtain rfl := Option.some.inj hop
  simp [Op.uses_eq_nil_of_creates hcreates] at huse

/-- The stable order holds each position of the script once. -/
theorem perm_stableOrder (script : Script) :
    script.stableOrder.Perm (List.range script.length) :=
  perm_place (bipartite_edges script) _

theorem mem_stableOrder_iff {i : Nat} : i ∈ script.stableOrder ↔ i < script.length := by
  rw [(perm_stableOrder script).mem_iff, List.mem_range]

/-- In the stable order nothing stands before the creation that it depends on. -/
theorem pairwise_stableOrder (script : Script) :
    script.stableOrder.Pairwise fun i j => ∀ edge ∈ script.edges, edge.user = i →
      edge.creator ≠ j :=
  pairwise_place script.edges _

/-! ## The reordered script -/

theorem filterMap_getElem?_range (script : Script) :
    (List.range script.length).filterMap (fun i => script[i]?) = script := by
  induction script with
  | nil => rfl
  | cons op script ih =>
    rw [List.length_cons, List.range_succ_eq_map, List.filterMap_cons, List.filterMap_map]
    exact congrArg (op :: ·) ih

/-- Reordering changes nothing but the order. -/
theorem perm_reorder (script : Script) : script.reorder.Perm script := by
  have hperm := (perm_stableOrder script).filterMap fun i => script[i]?
  rwa [filterMap_getElem?_range] at hperm

/-- The operation at a position of the reordered script. -/
theorem getElem?_reorder (script : Script) (k : Nat) :
    script.reorder[k]? = script.stableOrder[k]?.bind fun i => script[i]? := by
  have hget : ∀ (order : List Nat), (∀ i ∈ order, i < script.length) → ∀ k : Nat,
      (order.filterMap fun i => script[i]?)[k]? = order[k]?.bind fun i => script[i]? := by
    intro order
    induction order with
    | nil => simp
    | cons i order ih =>
      intro hrange k
      have hi := List.getElem?_eq_getElem (hrange i List.mem_cons_self)
      rw [List.filterMap_cons, hi]
      cases k with
      | zero => simp [hi]
      | succ k => simpa using ih (fun j hj => hrange j (List.mem_cons_of_mem _ hj)) k
  exact hget script.stableOrder (fun i hi => mem_stableOrder_iff.1 hi) k

/-- What an operation of the reordered script uses has been created by then, if the script
creates it at all. -/
theorem mem_additions_take_reorder {k : Nat} {op : Op} {t : Target}
    (hop : script.reorder[k]? = some op) (huse : t ∈ op.uses) (hcreated : t ∈ script.additions) :
    t ∈ additions (script.reorder.take k) := by
  rw [getElem?_reorder, Option.bind_eq_some_iff] at hop
  obtain ⟨i, hi, hop⟩ := hop
  obtain ⟨j, hdefiner⟩ : ∃ j, script.definer t = some j := by
    rw [← Option.ne_none_iff_exists']
    exact fun hnone => definer_eq_none_iff.1 hnone hcreated
  have hedge : (⟨j, i, t⟩ : Edge) ∈ script.edges :=
    mem_edges_iff.2 ⟨mem_usages_iff.2 ⟨op, hop, huse⟩, hdefiner⟩
  obtain ⟨creation, hcreation, hcreates⟩ :=
    mem_creations_iff.1 (definer_eq_some_iff.1 hdefiner).1
  obtain ⟨m, hm⟩ : ∃ m : Nat, script.stableOrder[m]? = some j := by
    apply List.mem_iff_getElem?.1
    exact mem_stableOrder_iff.2 (List.getElem?_eq_some_iff.1 hcreation).1
  -- The creation is placed neither with the use nor after it.
  have hne : m ≠ k := by
    rintro rfl
    have hsame : j = i := Option.some.inj (hm.symm.trans hi)
    exact bipartite_edges script _ hedge _ hedge hsame
  have hle : ¬ k < m := by
    intro hlt
    obtain ⟨hk, hik⟩ := List.getElem?_eq_some_iff.1 hi
    obtain ⟨hm', hjm⟩ := List.getElem?_eq_some_iff.1 hm
    have hpair := List.pairwise_iff_getElem.1 (pairwise_stableOrder script) k m hk hm' hlt
    exact hpair _ hedge hik.symm hjm.symm
  have hlt : m < k := by omega
  refine mem_additions_take_iff.2 ⟨m, hlt, creation, ?_, hcreates⟩
  rw [getElem?_reorder, hm, Option.bind_some, hcreation]

end Wiring.Script
