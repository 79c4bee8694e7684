import Wiring.Proofs.Script.LeastOrder

/-!
# What the stable order lets overtake

The stable order keeps two positions in their written order unless the first has to wait.
It is overtaken by the second exactly when it waits for a creation that stands behind the
second, and behind every creation that the second waits for, `precedes_place_iff`.

Two operations on one component wait for that component alike.  So an assignment and a
removal are never overtaken by a later operation on their component; only a bind can be,
through its channel, `precedes_stableOrder_iff`.
-/

namespace Wiring.Script

/-! ## Waiting -/

/-- An edge leads from the second position to the first. -/
def WaitsFor (edges : List Edge) (i k : Nat) : Prop :=
  ∃ edge ∈ edges, edge.user = i ∧ edge.creator = k

variable {edges : List Edge} {remaining : List Nat} {i j k : Nat}

theorem ready_eq_false_iff :
    ready edges remaining i = false ↔ ∃ k ∈ remaining, WaitsFor edges i k := by
  rw [← Bool.not_eq_true, ready_iff]
  constructor
  · intro hwaits
    apply Classical.byContradiction
    intro hnone
    apply hwaits
    intro edge hedge huser hcreator
    exact hnone ⟨edge.creator, hcreator, edge, hedge, huser, rfl⟩
  · rintro ⟨k, hk, edge, hedge, huser, rfl⟩ hready
    exact hready edge hedge huser hk

/-- What is waited for waits for nothing. -/
theorem ready_of_waitsFor (hedges : Bipartite edges) (h : WaitsFor edges i k) :
    ready edges remaining k = true := by
  obtain ⟨edge, hedge, -, rfl⟩ := h
  exact ready_iff.2 fun other hother huser _ => hedges edge hedge other hother huser.symm

/-- The second position is free to pass the first: the first waits for something that
remains, behind the second and behind all that the second waits for. -/
def Passes (edges : List Edge) (remaining : List Nat) (i j : Nat) : Prop :=
  ∃ k ∈ remaining, WaitsFor edges i k ∧ j ≤ k ∧
    ∀ k' ∈ remaining, WaitsFor edges j k' → k' < k

/-- Placing a position that is neither of the two leaves it open which of them is first. -/
theorem passes_erase_iff (hedges : Bipartite edges) (hsorted : remaining.Pairwise (· < ·))
    (hj : j ∈ remaining) {head : Nat} (hne : head ≠ j)
    (hfound : remaining.find? (ready edges remaining) = some head) :
    Passes edges (remaining.erase head) i j ↔ Passes edges remaining i j := by
  have hnodup : remaining.Nodup := hsorted.imp Nat.ne_of_lt
  -- Whatever is waited for could have been placed instead.
  have hleast : ∀ {i k}, k ∈ remaining → WaitsFor edges i k → head ≤ k := by
    intro i k hk hwaits
    exact le_of_find?_ready hsorted hfound hk (ready_of_waitsFor hedges hwaits)
  constructor
  · rintro ⟨k, hk, hwaits, hbehind, hall⟩
    obtain ⟨hkne, hk⟩ := hnodup.mem_erase_iff.1 hk
    refine ⟨k, hk, hwaits, hbehind, fun k' hk' hwaits' => ?_⟩
    by_cases hplaced : k' = head
    · have hle := hleast hk hwaits
      omega
    · exact hall k' (hnodup.mem_erase_iff.2 ⟨hplaced, hk'⟩) hwaits'
  · rintro ⟨k, hk, hwaits, hbehind, hall⟩
    have hkne : k ≠ head := by
      rintro rfl
      by_cases hready : ready edges remaining j = true
      · -- The second could have been placed, and stands before what was.
        have hle := le_of_find?_ready hsorted hfound hj hready
        omega
      · obtain ⟨k', hk', hwaits'⟩ := ready_eq_false_iff.1 (Bool.eq_false_iff.2 hready)
        have hle := hleast hk' hwaits'
        have hlt := hall k' hk' hwaits'
        omega
    refine ⟨k, hnodup.mem_erase_iff.2 ⟨hkne, hk⟩, hwaits, hbehind, fun k' hk' => ?_⟩
    exact hall k' (List.mem_of_mem_erase hk')

/-- Of two positions the first is placed first exactly when the second is not free to pass
it. -/
theorem precedes_place_iff (hedges : Bipartite edges) (hsorted : remaining.Pairwise (· < ·))
    (hi : i ∈ remaining) (hj : j ∈ remaining) (hlt : i < j) :
    Precedes (place edges remaining) i j ↔ ¬ Passes edges remaining i j := by
  fun_induction place edges remaining with
  | case1 remaining hnone =>
    obtain ⟨next, hnext, hready⟩ := exists_ready hedges (List.ne_nil_of_mem hi)
    exact absurd hready (List.find?_eq_none.1 hnone next hnext)
  | case2 remaining head hfound ih =>
    have hnodup : remaining.Nodup := hsorted.imp Nat.ne_of_lt
    have hready : ready edges remaining head = true := List.find?_some hfound
    have hplaced := perm_place hedges (remaining.erase head)
    rw [precedes_cons_iff]
    by_cases hfirst : i = head
    · -- The first waits for nothing any more.
      subst hfirst
      have hlater : j ∈ place edges (remaining.erase i) :=
        hplaced.mem_iff.2 (hnodup.mem_erase_iff.2 ⟨Nat.ne_of_gt hlt, hj⟩)
      refine iff_of_true (Or.inl ⟨rfl, hlater⟩) ?_
      rintro ⟨k, hk, hwaits, -⟩
      rw [ready_eq_false_iff.2 ⟨k, hk, hwaits⟩] at hready
      exact Bool.false_ne_true hready
    by_cases hsecond : j = head
    · subst hsecond
      -- The second was passed to only because the first waits, and for something behind.
      have hwaiting : ready edges remaining i ≠ true := by
        intro hfree
        have hle := le_of_find?_ready hsorted hfound hi hfree
        omega
      obtain ⟨k, hk, hwaits⟩ := ready_eq_false_iff.1 (Bool.eq_false_iff.2 hwaiting)
      have hbehind : j ≤ k :=
        le_of_find?_ready hsorted hfound hk (ready_of_waitsFor hedges hwaits)
      refine iff_of_false ?_ (not_not_intro ⟨k, hk, hwaits, hbehind, fun k' hk' hwaits' => ?_⟩)
      · rintro (⟨hsame, -⟩ | hrest)
        · exact hfirst hsame
        · exact (hnodup.mem_erase_iff.1 (hplaced.mem_iff.1 hrest.mem_right)).1 rfl
      · rw [ready_eq_false_iff.2 ⟨k', hk', hwaits'⟩] at hready
        exact absurd hready Bool.false_ne_true
    · have hi' : i ∈ remaining.erase head := hnodup.mem_erase_iff.2 ⟨hfirst, hi⟩
      have hj' : j ∈ remaining.erase head := hnodup.mem_erase_iff.2 ⟨hsecond, hj⟩
      rw [or_iff_right (fun hhead => hfirst hhead.1), ih (hsorted.erase head) hi' hj',
        passes_erase_iff hedges hsorted hj (Ne.symm hsecond) hfound]

/-! ## Operations on one component -/

variable {script : Script}

theorem waitsFor_edges_iff {op : Op} (hop : script[i]? = some op) :
    WaitsFor script.edges i k ↔ ∃ t ∈ op.uses, script.definer t = some k := by
  constructor
  · rintro ⟨edge, hedge, rfl, rfl⟩
    obtain ⟨husage, hdefiner⟩ := mem_edges_iff.1 hedge
    obtain ⟨op', hop', huse⟩ := mem_usages_iff.1 husage
    obtain rfl := Option.some.inj (hop.symm.trans hop')
    exact ⟨edge.target, huse, hdefiner⟩
  · rintro ⟨t, huse, hdefiner⟩
    exact ⟨⟨k, i, t⟩, mem_edges_iff.2 ⟨mem_usages_iff.2 ⟨op, hop, huse⟩, hdefiner⟩, rfl, rfl⟩

theorem definer_lt_length {t : Target} (h : script.definer t = some k) : k < script.length := by
  obtain ⟨op, hop, -⟩ := mem_creations_iff.1 (definer_eq_some_iff.1 h).1
  exact (List.getElem?_eq_some_iff.1 hop).1

/-- The operation is a bind to a channel that the script creates, first, behind the
position and behind all creations that the other operation waits for. -/
def IsOvertaken (script : Script) (op : Op) (j : Nat) (op' : Op) : Prop :=
  ∃ port channel k, op = .bind port channel ∧ script.definer (.channel channel) = some k ∧
    j < k ∧ ∀ t ∈ op'.uses, ∀ k', script.definer t = some k' → k' < k

/-- What both operations wait for does not count, and apart from its component only a bind
waits for anything. -/
theorem passes_edges_iff {op op' : Op} {path : ComponentPath} (hop : script[i]? = some op)
    (hop' : script[j]? = some op') (huse : .component path ∈ op.uses)
    (huse' : .component path ∈ op'.uses) :
    Passes script.edges (List.range script.length) i j ↔ script.IsOvertaken op j op' := by
  constructor
  · rintro ⟨k, -, hwaits, hbehind, hall⟩
    obtain ⟨t, ht, hdefiner⟩ := (waitsFor_edges_iff hop).1 hwaits
    have hlater : ∀ t' ∈ op'.uses, ∀ k', script.definer t' = some k' → k' < k := by
      intro t' ht' k' hdefiner'
      have hk' := List.mem_range.2 (definer_lt_length hdefiner')
      exact hall k' hk' ((waitsFor_edges_iff hop').2 ⟨t', ht', hdefiner'⟩)
    have hother : t ≠ .component path := by
      rintro rfl
      exact absurd (hlater _ huse' k hdefiner) (Nat.lt_irrefl k)
    -- The second creates nothing, so it is not itself what is waited for.
    have hne : j ≠ k := by
      rintro rfl
      obtain ⟨creation, hcreation, hcreates⟩ :=
        mem_creations_iff.1 (definer_eq_some_iff.1 hdefiner).1
      obtain rfl := Option.some.inj (hop'.symm.trans hcreation)
      rw [Op.uses_eq_nil_of_creates hcreates] at huse'
      exact List.not_mem_nil huse'
    cases op with
    | addComponent path' typeName => exact absurd ht List.not_mem_nil
    | addChannel channel typeName => exact absurd ht List.not_mem_nil
    | setAttribute path' key value =>
      rw [List.mem_singleton.1 huse] at hother
      exact absurd (List.mem_singleton.1 ht) hother
    | remove path' =>
      rw [List.mem_singleton.1 huse] at hother
      exact absurd (List.mem_singleton.1 ht) hother
    | bind port channel =>
      have hport : Target.component path = .component port.component := by
        simpa [Op.uses] using huse
      have hchannel : t = .channel channel := by
        rcases List.mem_cons.1 ht with hsame | ht
        · exact absurd (hsame.trans hport.symm) hother
        · exact List.mem_singleton.1 ht
      subst hchannel
      exact ⟨port, channel, k, rfl, hdefiner, by omega, hlater⟩
  · rintro ⟨port, channel, k, rfl, hdefiner, hlt, hlater⟩
    have hchannel : Target.channel channel ∈ (Op.bind port channel).uses :=
      List.mem_cons_of_mem _ List.mem_cons_self
    refine ⟨k, List.mem_range.2 (definer_lt_length hdefiner),
      (waitsFor_edges_iff hop).2 ⟨_, hchannel, hdefiner⟩, Nat.le_of_lt hlt, ?_⟩
    intro k' _ hwaits'
    obtain ⟨t', ht', hdefiner'⟩ := (waitsFor_edges_iff hop').1 hwaits'
    exact hlater t' ht' k' hdefiner'

/-- The stable order keeps two operations on one component in their written order, unless
the first is a bind whose channel is created behind the second and behind all that the
second waits for; then it turns them round. -/
theorem precedes_stableOrder_iff {op op' : Op} {path : ComponentPath} (hlt : i < j)
    (hop : script[i]? = some op) (hop' : script[j]? = some op')
    (huse : .component path ∈ op.uses) (huse' : .component path ∈ op'.uses) :
    Precedes script.stableOrder i j ↔ ¬ script.IsOvertaken op j op' := by
  have hi := List.mem_range.2 (List.getElem?_eq_some_iff.1 hop).1
  have hj := List.mem_range.2 (List.getElem?_eq_some_iff.1 hop').1
  rw [stableOrder, precedes_place_iff (bipartite_edges script) List.pairwise_lt_range hi hj hlt,
    passes_edges_iff hop hop' huse huse']

/-- A bind, the removal of its component, and only then the channel of the bind. -/
def lateChannel : Script :=
  [.bind ⟨⟨"home1", "light_a"⟩, "in"⟩ ⟨"c"⟩, .remove ⟨"home1", "light_a"⟩,
    .addChannel ⟨"c"⟩ "AsyncBroadcast"]

/-- The bind waits for the channel behind the removal, which waits for nothing. -/
theorem precedes_stableOrder_iff_lateChannel :
    (Precedes lateChannel.stableOrder 0 1 ↔
      ¬ lateChannel.IsOvertaken (.bind ⟨⟨"home1", "light_a"⟩, "in"⟩ ⟨"c"⟩) 1
        (.remove ⟨"home1", "light_a"⟩)) ∧
      lateChannel.IsOvertaken (.bind ⟨⟨"home1", "light_a"⟩, "in"⟩ ⟨"c"⟩) 1
        (.remove ⟨"home1", "light_a"⟩) := by
  constructor
  · have hbind : Target.component ⟨"home1", "light_a"⟩ ∈
        (Op.bind ⟨⟨"home1", "light_a"⟩, "in"⟩ ⟨"c"⟩).uses := List.mem_cons_self
    have hremove : Target.component ⟨"home1", "light_a"⟩ ∈
        (Op.remove ⟨"home1", "light_a"⟩).uses := List.mem_cons_self
    exact precedes_stableOrder_iff Nat.zero_lt_one rfl rfl hbind hremove
  · refine ⟨⟨⟨"home1", "light_a"⟩, "in"⟩, ⟨"c"⟩, 2, rfl, by decide, by decide, ?_⟩
    intro t ht k' hdefiner
    obtain rfl := List.mem_singleton.1 ht
    have hnone : lateChannel.definer (.component ⟨"home1", "light_a"⟩) = none := by decide
    simp [hnone] at hdefiner

/-- So the written order of two operations on one component is not always kept: here the
removal is placed first. -/
theorem not_precedes_lateChannel :
    ¬ ∀ (script : Script) (i j : Nat) (op op' : Op) (path : ComponentPath), i < j →
      script[i]? = some op → script[j]? = some op' → .component path ∈ op.uses →
      .component path ∈ op'.uses → Precedes script.stableOrder i j := by
  intro hkept
  have horder : lateChannel.stableOrder = [1, 2, 0] := by decide +kernel
  have hbefore : Precedes lateChannel.stableOrder 0 1 :=
    hkept lateChannel 0 1 _ _ ⟨"home1", "light_a"⟩ Nat.zero_lt_one rfl rfl
      List.mem_cons_self List.mem_cons_self
  rw [horder] at hbefore
  exact absurd hbefore (by decide)

end Wiring.Script
