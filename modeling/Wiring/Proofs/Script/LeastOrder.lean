import Wiring.Proofs.Script.Reorder

/-!
# The least dependency order

An order of the positions of a script is a dependency order when whatever an operation uses
and the script creates at all is created before it.  A script can have many such orders.
The stable order is the first of them when orders are compared position by position,
`stableOrder_isLeast`: at each place it has the smallest position that can stand there.

So a script whose uses all stand behind their creations is left as it is, and these are the
only scripts that reordering leaves as they are; reordering twice is reordering once.
-/

namespace Wiring.Script

/-! ## One position before another -/

/-- In an order of positions one stands before another. -/
def Precedes (order : List Nat) (i j : Nat) : Prop := [i, j].Sublist order

instance (order : List Nat) (i j : Nat) : Decidable (Precedes order i j) :=
  inferInstanceAs (Decidable ([i, j].Sublist order))

variable {order : List Nat} {i j k : Nat}

theorem precedes_cons_iff :
    Precedes (k :: order) i j ↔ (i = k ∧ j ∈ order) ∨ Precedes order i j := by
  rw [Precedes, List.sublist_cons_iff, or_comm]
  refine or_congr_left ⟨?_, ?_⟩
  · rintro ⟨rest, heq, hrest⟩
    obtain ⟨rfl, rfl⟩ := List.cons.inj heq
    exact ⟨rfl, List.singleton_sublist.1 hrest⟩
  · rintro ⟨rfl, hj⟩
    exact ⟨[j], rfl, List.singleton_sublist.2 hj⟩

theorem Precedes.mem_left (h : Precedes order i j) : i ∈ order :=
  h.subset List.mem_cons_self

theorem Precedes.mem_right (h : Precedes order i j) : j ∈ order :=
  h.subset (List.mem_cons_of_mem _ List.mem_cons_self)

/-- Of two positions in an order one stands before the other. -/
theorem precedes_or_precedes (hi : i ∈ order) (hj : j ∈ order) (hne : i ≠ j) :
    Precedes order i j ∨ Precedes order j i := by
  induction order with
  | nil => exact absurd hi List.not_mem_nil
  | cons k order ih =>
    simp only [precedes_cons_iff]
    by_cases hik : i = k
    · exact Or.inl (Or.inl ⟨hik, List.mem_of_ne_of_mem (hik ▸ hne.symm) hj⟩)
    by_cases hjk : j = k
    · exact Or.inr (Or.inl ⟨hjk, List.mem_of_ne_of_mem hik hi⟩)
    · have hrest := ih (List.mem_of_ne_of_mem hik hi) (List.mem_of_ne_of_mem hjk hj)
      exact hrest.imp Or.inr Or.inr

/-- Only one of them does when no position stands twice. -/
theorem Precedes.not_precedes (h : Precedes order i j) (hnodup : order.Nodup) :
    ¬ Precedes order j i := by
  induction order with
  | nil => exact absurd h.mem_left List.not_mem_nil
  | cons k order ih =>
    obtain ⟨hk, hrest⟩ := List.nodup_cons.1 hnodup
    rw [precedes_cons_iff] at h ⊢
    rintro (⟨rfl, hi⟩ | hback)
    · rcases h with ⟨rfl, -⟩ | h
      · exact hk hi
      · exact hk h.mem_right
    · rcases h with ⟨rfl, -⟩ | h
      · exact hk hback.mem_right
      · exact ih h hrest hback

/-- Where two orders first differ, the first of them has the smaller position. -/
def ComesBefore (order other : List Nat) : Prop := List.Lex (· < ·) order other

/-! ## Placing the first that is ready -/

variable {edges : List Edge} {remaining : List Nat}

/-- As long as the positions ascend, nothing that is ready is smaller than what is placed. -/
theorem le_of_find?_ready (hsorted : remaining.Pairwise (· < ·))
    (hfound : remaining.find? (ready edges remaining) = some i) (hj : j ∈ remaining)
    (hready : ready edges remaining j = true) : i ≤ j := by
  obtain ⟨-, before, after, hsplit, hbefore⟩ := List.find?_eq_some_iff_append.1 hfound
  rw [hsplit] at hj hsorted
  rcases List.mem_append.1 hj with hj | hj
  · -- What stands before it was passed over.
    have hpassed := hbefore j hj
    rw [hready] at hpassed
    exact absurd hpassed (by decide)
  rcases List.mem_cons.1 hj with rfl | hj
  · exact Nat.le_refl j
  · have hafter := (List.pairwise_append.1 hsorted).2.1
    exact Nat.le_of_lt (List.rel_of_pairwise_cons hafter hj)

/-- What stands first in an order without a use before its creation is ready. -/
theorem ready_of_pairwise (hedges : Bipartite edges) (hperm : (i :: order).Perm remaining)
    (hpairs : (i :: order).Pairwise fun i j => ∀ edge ∈ edges, edge.user = i →
      edge.creator ≠ j) : ready edges remaining i = true := by
  refine ready_iff.2 fun edge hedge huser hcreator => ?_
  rcases List.mem_cons.1 (hperm.mem_iff.2 hcreator) with hself | hlater
  · exact hedges edge hedge edge hedge (hself.trans huser.symm)
  · exact List.rel_of_pairwise_cons hpairs hlater edge hedge huser rfl

/-- The order in which positions are placed comes before every other order without a use
before its creation. -/
theorem place_least (hedges : Bipartite edges) (hsorted : remaining.Pairwise (· < ·))
    (hperm : order.Perm remaining)
    (hpairs : order.Pairwise fun i j => ∀ edge ∈ edges, edge.user = i → edge.creator ≠ j) :
    place edges remaining = order ∨ ComesBefore (place edges remaining) order := by
  fun_induction place edges remaining generalizing order with
  | case1 remaining hnone =>
    cases order with
    | nil => exact Or.inl rfl
    | cons first order => exact Or.inr List.Lex.nil
  | case2 remaining i hfound ih =>
    have hi : i ∈ remaining := List.mem_of_find?_eq_some hfound
    cases order with
    | nil =>
      rw [List.nil_perm.1 hperm] at hi
      exact absurd hi List.not_mem_nil
    | cons first order =>
      have hfirst : first ∈ remaining := hperm.mem_iff.1 List.mem_cons_self
      have hready := ready_of_pairwise hedges hperm hpairs
      rcases Nat.lt_or_eq_of_le (le_of_find?_ready hsorted hfound hfirst hready) with hlt | rfl
      · exact Or.inr (List.Lex.rel hlt)
      · have hrest : order.Perm (remaining.erase i) :=
          (hperm.trans (List.perm_cons_erase hi)).cons_inv
        rcases ih (hsorted.erase i) hrest hpairs.of_cons with hsame | hbefore
        · exact Or.inl (congrArg (List.cons i) hsame)
        · exact Or.inr (List.Lex.cons hbefore)

/-- When every use stands behind its creation, positions are placed as they stand. -/
theorem place_eq_self (hforward : ∀ edge ∈ edges, edge.creator < edge.user)
    (hsorted : remaining.Pairwise (· < ·)) : place edges remaining = remaining := by
  induction remaining with
  | nil =>
    rw [place]
    rfl
  | cons first rest ih =>
    -- The first position waits neither for itself nor for what stands behind it.
    have hready : ready edges (first :: rest) first = true := by
      refine ready_iff.2 fun edge hedge huser hcreator => ?_
      have hbefore := hforward edge hedge
      rcases List.mem_cons.1 hcreator with hself | hlater
      · omega
      · have hbehind := List.rel_of_pairwise_cons hsorted hlater
        omega
    have hfound : (first :: rest).find? (ready edges (first :: rest)) = some first :=
      List.find?_cons_of_pos hready
    rw [place]
    split
    · rename_i hnone
      rw [hfound] at hnone
      simp at hnone
    · rename_i i hi
      obtain rfl : first = i := Option.some.inj (hfound.symm.trans hi)
      rw [List.erase_cons_head, ih hsorted.of_cons]

/-! ## Dependency orders -/

/-- An order of the positions of a script in which whatever an operation uses is created
before it, if the script creates it; of several creations the first counts. -/
structure IsDependencyOrder (script : Script) (order : List Nat) : Prop where
  perm : order.Perm (List.range script.length)
  created : ∀ (i : Nat) (op : Op) (t : Target) (creator : Nat), script[i]? = some op →
    t ∈ op.uses → script.definer t = some creator → Precedes order creator i

variable {script : Script}

/-- The stable order is a dependency order. -/
theorem isDependencyOrder_stableOrder (script : Script) :
    script.IsDependencyOrder script.stableOrder where
  perm := perm_stableOrder script
  created := by
    intro i op t creator hop huse hdefiner
    have hedge : (⟨creator, i, t⟩ : Edge) ∈ script.edges :=
      mem_edges_iff.2 ⟨mem_usages_iff.2 ⟨op, hop, huse⟩, hdefiner⟩
    have hne : creator ≠ i := bipartite_edges script _ hedge _ hedge
    obtain ⟨creation, hcreation, -⟩ := mem_creations_iff.1 (definer_eq_some_iff.1 hdefiner).1
    have hi : i ∈ script.stableOrder :=
      mem_stableOrder_iff.2 (List.getElem?_eq_some_iff.1 hop).1
    have hcreator : creator ∈ script.stableOrder :=
      mem_stableOrder_iff.2 (List.getElem?_eq_some_iff.1 hcreation).1
    refine (precedes_or_precedes hcreator hi hne).resolve_right fun hback => ?_
    have hpair := List.pairwise_iff_forall_sublist.1 (pairwise_stableOrder script) hback
    exact hpair _ hedge rfl rfl

/-- In a dependency order nothing stands before a creation that it depends on. -/
theorem IsDependencyOrder.pairwise {order : List Nat} (h : script.IsDependencyOrder order) :
    order.Pairwise fun i j => ∀ edge ∈ script.edges, edge.user = i → edge.creator ≠ j := by
  have hnodup : order.Nodup := h.perm.nodup_iff.2 List.nodup_range
  refine List.pairwise_iff_forall_sublist.2 fun {i j} hij edge hedge huser hcreator => ?_
  obtain ⟨husage, hdefiner⟩ := mem_edges_iff.1 hedge
  obtain ⟨op, hop, huse⟩ := mem_usages_iff.1 husage
  have hcreated := h.created edge.user op edge.target edge.creator hop huse hdefiner
  rw [huser, hcreator] at hcreated
  exact hcreated.not_precedes hnodup hij

/-- The stable order comes before every other dependency order. -/
theorem stableOrder_least {order : List Nat} (h : script.IsDependencyOrder order) :
    script.stableOrder = order ∨ ComesBefore script.stableOrder order :=
  place_least (bipartite_edges script) List.pairwise_lt_range h.perm h.pairwise

/-! ## Reordering -/

/-- A script without a use before its creation is left as it is. -/
theorem reorder_of_misordered_eq_nil (h : script.misordered = []) :
    script.reorder = script := by
  have hforward : ∀ edge ∈ script.edges, edge.creator < edge.user := by
    intro edge hedge
    obtain ⟨husage, hdefiner⟩ := mem_edges_iff.1 hedge
    have hle := misordered_eq_nil_iff.1 h edge.user edge.target husage edge.creator hdefiner
    have hne := bipartite_edges script edge hedge edge hedge
    omega
  have horder : script.stableOrder = List.range script.length :=
    place_eq_self hforward List.pairwise_lt_range
  rw [reorder, horder, filterMap_getElem?_range]

/-- The stable order is the least of all dependency orders.  So reordering a second time
changes nothing, and a script is left as it is exactly when no use in it stands before the
creation. -/
theorem stableOrder_isLeast (script : Script) :
    script.IsDependencyOrder script.stableOrder ∧
      (∀ order, script.IsDependencyOrder order →
        script.stableOrder = order ∨ ComesBefore script.stableOrder order) ∧
      script.reorder.reorder = script.reorder ∧
      (script.reorder = script ↔ script.misordered = []) := by
  refine ⟨isDependencyOrder_stableOrder script, fun order => stableOrder_least, ?_, ?_, ?_⟩
  · exact reorder_of_misordered_eq_nil (misordered_reorder script)
  · intro hsame
    have hnone := misordered_reorder script
    rwa [hsame] at hnone
  · exact reorder_of_misordered_eq_nil

end Wiring.Script
