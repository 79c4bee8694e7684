import Wiring.Script.Check

/-!
# Scripts in order

The check of a script looks at the whole script at once: at the creations, at the uses,
and at the position of the first creation of each target.  It comes down to a statement
about each operation and the operations before it, `check_eq_ok_iff_inOrder`: what the
operation creates is not there yet, and what it uses is there.  There is what the model
has and what an earlier operation created; a removal takes nothing away.
-/

namespace Wiring

/-- What exists at a moment. -/
abbrev Presence := Target → Bool

/-- An operation applies when what it adds does not exist, and what it assigns to,
connects or removes does. -/
def Op.Applies (present : Presence) : Op → Prop
  | .addComponent path _ => present (.component path) = false
  | .addChannel channel _ => present (.channel channel) = false
  | .setAttribute path _ _ | .remove path => present (.component path) = true
  | .bind port channel =>
    present (.component port.component) = true ∧ present (.channel channel) = true

instance (present : Presence) (op : Op) : Decidable (op.Applies present) := by
  cases op <;> unfold Op.Applies <;> infer_instance

theorem Op.applies_iff {present : Presence} {op : Op} :
    op.Applies present ↔
      (∀ t, op.creates = some t → present t = false) ∧ ∀ t ∈ op.uses, present t = true := by
  cases op <;> simp [Op.Applies, Op.creates, Op.uses]

/-- What creates something uses nothing. -/
theorem Op.uses_eq_nil_of_creates {op : Op} {t : Target} (h : op.creates = some t) :
    op.uses = [] := by
  cases op with
  | addComponent path typeName => rfl
  | addChannel channel typeName => rfl
  | setAttribute path key value => simp [Op.creates] at h
  | bind port channel => simp [Op.creates] at h
  | remove path => simp [Op.creates] at h

namespace Script

/-- The targets that a script creates, in its order. -/
def additions (script : Script) : List Target := script.filterMap Op.creates

theorem additions_append (s t : Script) :
    additions (s ++ t) = s.additions ++ t.additions :=
  List.filterMap_append

theorem mem_additions_take_iff {script : Script} {n : Nat} {t : Target} :
    t ∈ additions (script.take n) ↔
      ∃ i < n, ∃ op, script[i]? = some op ∧ op.creates = some t := by
  rw [additions, List.mem_filterMap]
  constructor
  · rintro ⟨op, hop, hcreates⟩
    obtain ⟨i, hi⟩ := List.mem_iff_getElem?.1 hop
    rw [List.getElem?_take] at hi
    split at hi
    · rename_i hlt
      exact ⟨i, hlt, op, hi, hcreates⟩
    · simp at hi
  · rintro ⟨i, hlt, op, hi, hcreates⟩
    have hop : op ∈ script.take n := by
      apply List.mem_iff_getElem?.2
      exact ⟨i, by rw [List.getElem?_take, if_pos hlt, hi]⟩
    exact ⟨op, hop, hcreates⟩

theorem mem_additions_of_take {script : Script} {n : Nat} {t : Target}
    (h : t ∈ additions (script.take n)) : t ∈ script.additions := by
  rw [← List.take_append_drop n script, additions_append]
  exact List.mem_append_left _ h

theorem mem_additions_take_mono {script : Script} {m n : Nat} (hmn : m ≤ n) {t : Target}
    (h : t ∈ additions (script.take m)) : t ∈ additions (script.take n) := by
  obtain ⟨i, hi, hcreation⟩ := mem_additions_take_iff.1 h
  exact mem_additions_take_iff.2 ⟨i, by omega, hcreation⟩

end Script

/-- What exists after the creations of a script. -/
def Presence.after (present : Presence) (script : Script) : Presence :=
  fun t => present t || script.additions.contains t

namespace Presence

variable {present : Presence} {script : Script} {t : Target}

theorem after_nil (present : Presence) : present.after [] = present := by
  funext t
  simp [after, Script.additions]

theorem after_append (present : Presence) (s t : Script) :
    present.after (s ++ t) = (present.after s).after t := by
  funext target
  simp [after, Script.additions_append, Bool.or_assoc]

theorem after_eq_true_iff :
    present.after script t = true ↔ present t = true ∨ t ∈ script.additions := by
  simp [after]

theorem after_of_present (script : Script) (h : present t = true) :
    present.after script t = true :=
  after_eq_true_iff.2 (Or.inl h)

theorem after_eq_false_iff :
    present.after script t = false ↔ present t = false ∧ t ∉ script.additions := by
  simp [after]

end Presence

namespace Script

/-- Each operation applies to what exists before the script and what the operations
before it created. -/
def InOrder (present : Presence) (script : Script) : Prop :=
  ∀ (i : Nat) (op : Op), script[i]? = some op → op.Applies (present.after (script.take i))

theorem inOrder_nil (present : Presence) : InOrder present [] := by
  intro i op h
  simp at h

theorem inOrder_cons {present : Presence} {op : Op} {script : Script} :
    InOrder present (op :: script) ↔
      op.Applies present ∧ InOrder (present.after [op]) script := by
  have hafter : ∀ i, present.after ((op :: script).take (i + 1)) =
      (present.after [op]).after (script.take i) := by
    intro i
    rw [List.take_succ_cons, ← List.singleton_append, Presence.after_append]
  constructor
  · intro h
    constructor
    · have hfirst := h 0 op rfl
      rwa [List.take_zero, Presence.after_nil] at hfirst
    · intro i op' hop'
      rw [← hafter]
      exact h (i + 1) op' hop'
  · rintro ⟨hop, hscript⟩ i op' hop'
    cases i with
    | zero =>
      obtain rfl : op = op' := by simpa using hop'
      rwa [List.take_zero, Presence.after_nil]
    | succ i =>
      rw [hafter]
      exact hscript i op' (by simpa using hop')

theorem inOrder_append {present : Presence} {s t : Script} :
    InOrder present (s ++ t) ↔ InOrder present s ∧ InOrder (present.after s) t := by
  induction s generalizing present with
  | nil => simp [inOrder_nil, Presence.after_nil]
  | cons op s ih =>
    rw [List.cons_append, inOrder_cons, ih, inOrder_cons, and_assoc, ← Presence.after_append,
      List.singleton_append]

/-! ## Positions -/

theorem mem_numbered_iff {script : Script} {i : Nat} {op : Op} :
    (i, op) ∈ script.numbered ↔ script[i]? = some op := by
  rw [numbered, List.mem_iff_getElem?]
  constructor
  · rintro ⟨j, hj⟩
    obtain ⟨hi, hop⟩ := List.getElem?_zip_eq_some.1 hj
    have hsame : j = i := by
      obtain ⟨hlt, heq⟩ := List.getElem?_eq_some_iff.1 hi
      simpa using heq
    exact hsame ▸ hop
  · intro hop
    have hlt : i < script.length := (List.getElem?_eq_some_iff.1 hop).1
    refine ⟨i, List.getElem?_zip_eq_some.2 ⟨?_, hop⟩⟩
    rw [List.getElem?_range hlt]

theorem mem_creations_iff {script : Script} {i : Nat} {t : Target} :
    (i, t) ∈ script.creations ↔ ∃ op, script[i]? = some op ∧ op.creates = some t := by
  simp only [creations, List.mem_filterMap, Option.map_eq_some_iff, Prod.mk.injEq]
  constructor
  · rintro ⟨⟨j, op⟩, hmem, target, hcreates, rfl, rfl⟩
    exact ⟨op, mem_numbered_iff.1 hmem, hcreates⟩
  · rintro ⟨op, hop, hcreates⟩
    exact ⟨(i, op), mem_numbered_iff.2 hop, t, hcreates, rfl, rfl⟩

theorem mem_usages_iff {script : Script} {i : Nat} {t : Target} :
    (i, t) ∈ script.usages ↔ ∃ op, script[i]? = some op ∧ t ∈ op.uses := by
  simp only [usages, List.mem_flatMap, List.mem_map, Prod.mk.injEq]
  constructor
  · rintro ⟨⟨j, op⟩, hmem, target, huse, rfl, rfl⟩
    exact ⟨op, mem_numbered_iff.1 hmem, huse⟩
  · rintro ⟨op, hop, huse⟩
    exact ⟨(i, op), mem_numbered_iff.2 hop, t, huse, rfl, rfl⟩

theorem definer_eq_none_iff {script : Script} {t : Target} :
    script.definer t = none ↔ t ∉ script.additions := by
  simp [definer, additions, List.findIdx?_eq_none_iff]

/-- The definer of a target is the operation that creates it and that no other creation
of the target precedes. -/
theorem definer_eq_some_iff {script : Script} {t : Target} {i : Nat} :
    script.definer t = some i ↔
      (i, t) ∈ script.creations ∧ t ∉ additions (script.take i) := by
  rw [definer, List.findIdx?_eq_some_iff_getElem, mem_creations_iff, mem_additions_take_iff]
  constructor
  · rintro ⟨hi, hcreates, hfirst⟩
    refine ⟨⟨script[i], List.getElem?_eq_getElem hi, by simpa using hcreates⟩, ?_⟩
    rintro ⟨j, hj, op, hop, hop'⟩
    obtain ⟨hlt, rfl⟩ := List.getElem?_eq_some_iff.1 hop
    exact hfirst j hj (by simpa using hop')
  · rintro ⟨⟨op, hop, hcreates⟩, hfirst⟩
    obtain ⟨hi, rfl⟩ := List.getElem?_eq_some_iff.1 hop
    refine ⟨hi, by simpa using hcreates, fun j hj hcreation => ?_⟩
    have hlt : j < script.length := by omega
    exact hfirst ⟨j, hj, script[j], List.getElem?_eq_getElem hlt, by simpa using hcreation⟩

/-! ## The four conditions -/

theorem check_eq_ok_iff {script : Script} {model : Model} :
    script.check model = .ok () ↔ script.violations model = [] := by
  rw [check]
  split <;> simp_all

theorem duplicates_eq_nil_iff {script : Script} :
    script.duplicates = [] ↔
      ∀ i t, (i, t) ∈ script.creations → script.definer t = some i := by
  simp [duplicates, List.filter_eq_nil_iff]

theorem misordered_eq_nil_iff {script : Script} :
    script.misordered = [] ↔
      ∀ i t, (i, t) ∈ script.usages → ∀ j, script.definer t = some j → j ≤ i := by
  simp only [misordered, edges, List.filter_eq_nil_iff, List.mem_filterMap,
    Option.map_eq_some_iff, decide_eq_true_eq, Nat.not_lt]
  constructor
  · intro h i t hmem j hj
    exact h ⟨j, i, t⟩ ⟨(i, t), hmem, j, hj, rfl⟩
  · rintro h edge ⟨⟨i, t⟩, hmem, j, hj, rfl⟩
    exact h i t hmem j hj

theorem violations_eq_nil_iff {script : Script} {model : Model} :
    script.violations model = [] ↔
      script.duplicates = [] ∧ (∀ i t, (i, t) ∈ script.created → model.has t = false) ∧
        script.misordered = [] ∧
          ∀ i t, (i, t) ∈ script.external → model.has t = true := by
  have hsorted : ∀ l : List Edge,
      l.mergeSort (fun a b => decide (a.user ≤ b.user)) = [] ↔ l = [] := by
    intro l
    rw [← List.length_eq_zero_iff, List.length_mergeSort, List.length_eq_zero_iff]
  simp [violations, hsorted, List.filter_eq_nil_iff]

/-! ## The check -/

/-- A script is in order when what it creates is new and what it uses is there, each at
its position. -/
theorem inOrder_iff {present : Presence} {script : Script} :
    script.InOrder present ↔
      (∀ i t, (i, t) ∈ script.creations →
        present t = false ∧ t ∉ additions (script.take i)) ∧
      ∀ i t, (i, t) ∈ script.usages →
        present t = true ∨ t ∈ additions (script.take i) := by
  constructor
  · intro horder
    refine ⟨fun i t hcreation => ?_, fun i t husage => ?_⟩
    · obtain ⟨op, hop, hcreates⟩ := mem_creations_iff.1 hcreation
      have happlies := Op.applies_iff.1 (horder i op hop)
      exact Presence.after_eq_false_iff.1 (happlies.1 t hcreates)
    · obtain ⟨op, hop, huse⟩ := mem_usages_iff.1 husage
      have happlies := Op.applies_iff.1 (horder i op hop)
      exact Presence.after_eq_true_iff.1 (happlies.2 t huse)
  · rintro ⟨hnew, hthere⟩ i op hop
    refine Op.applies_iff.2 ⟨fun t hcreates => ?_, fun t huse => ?_⟩
    · have hcreation : (i, t) ∈ script.creations := mem_creations_iff.2 ⟨op, hop, hcreates⟩
      exact Presence.after_eq_false_iff.2 (hnew i t hcreation)
    · have husage : (i, t) ∈ script.usages := mem_usages_iff.2 ⟨op, hop, huse⟩
      exact Presence.after_eq_true_iff.2 (hthere i t husage)

/-- What is created is new when no creation is a second one and no first one creates what
is there. -/
theorem creations_new_iff {present : Presence} {script : Script} :
    (∀ i t, (i, t) ∈ script.creations →
        present t = false ∧ t ∉ additions (script.take i)) ↔
      (∀ i t, (i, t) ∈ script.creations → script.definer t = some i) ∧
        ∀ i t, (i, t) ∈ script.created → present t = false := by
  constructor
  · intro hnew
    refine ⟨fun i t hcreation => ?_, fun i t hcreated => ?_⟩
    · exact definer_eq_some_iff.2 ⟨hcreation, (hnew i t hcreation).2⟩
    · exact (hnew i t (List.mem_filter.1 hcreated).1).1
  · rintro ⟨honce, habsent⟩ i t hcreation
    have hdefiner := honce i t hcreation
    have hcreated : (i, t) ∈ script.created := by simp [created, hcreation, hdefiner]
    exact ⟨habsent i t hcreated, (definer_eq_some_iff.1 hdefiner).2⟩

/-- The creation of a target that an operation uses is another operation, so when it does
not come after the use it comes before. -/
theorem mem_additions_take_of_definer {script : Script} {i j : Nat} {t : Target}
    (husage : (i, t) ∈ script.usages) (hdefiner : script.definer t = some j) (hle : j ≤ i) :
    t ∈ additions (script.take i) := by
  obtain ⟨op, hop, huse⟩ := mem_usages_iff.1 husage
  obtain ⟨op', hop', hcreates⟩ := mem_creations_iff.1 (definer_eq_some_iff.1 hdefiner).1
  have hne : j ≠ i := by
    rintro rfl
    obtain rfl : op = op' := Option.some.inj (hop.symm.trans hop')
    simp [Op.uses_eq_nil_of_creates hcreates] at huse
  exact mem_additions_take_iff.2 ⟨j, by omega, op', hop', hcreates⟩

/-- A use finds its target when the creation does not come later, or, if there is none,
when the target is there from the start.  This is for targets that a script creates only
where they are not there. -/
theorem usage_there_iff {present : Presence} {script : Script}
    (hnew : ∀ i t, (i, t) ∈ script.creations → present t = false) {i : Nat} {t : Target}
    (husage : (i, t) ∈ script.usages) :
    present t = true ∨ t ∈ additions (script.take i) ↔
      (∀ j, script.definer t = some j → j ≤ i) ∧
        ((i, t) ∈ script.external → present t = true) := by
  cases hdefiner : script.definer t with
  | none =>
    have hexternal : (i, t) ∈ script.external := by simp [external, husage, hdefiner]
    have hnever : t ∉ additions (script.take i) :=
      fun h => definer_eq_none_iff.1 hdefiner (mem_additions_of_take h)
    simp [hexternal, hnever]
  | some j =>
    obtain ⟨hcreation, hfirst⟩ := definer_eq_some_iff.1 hdefiner
    have hinternal : (i, t) ∉ script.external := by simp [external, hdefiner]
    have habsent : present t = false := hnew j t hcreation
    simp only [habsent, Bool.false_eq_true, false_or, Option.some.injEq, forall_eq', hinternal,
      false_imp_iff, and_true]
    constructor
    · intro hearlier
      apply Nat.le_of_not_lt
      exact fun hlt => hfirst (mem_additions_take_mono (Nat.le_of_lt hlt) hearlier)
    · exact mem_additions_take_of_definer husage hdefiner

/-- A script passes the check exactly when its operations are in order. -/
theorem check_eq_ok_iff_inOrder {script : Script} {model : Model} :
    script.check model = .ok () ↔ script.InOrder model.has := by
  rw [check_eq_ok_iff, violations_eq_nil_iff, duplicates_eq_nil_iff, misordered_eq_nil_iff,
    inOrder_iff]
  constructor
  · rintro ⟨honce, habsent, hforward, hpresent⟩
    have hnew := creations_new_iff.2 ⟨honce, habsent⟩
    refine ⟨hnew, fun i t husage => ?_⟩
    apply (usage_there_iff (fun j t hcreation => (hnew j t hcreation).1) husage).2
    exact ⟨hforward i t husage, hpresent i t⟩
  · rintro ⟨hnew, hthere⟩
    obtain ⟨honce, habsent⟩ := creations_new_iff.1 hnew
    have huse := fun i t husage =>
      (usage_there_iff (fun j t hcreation => (hnew j t hcreation).1) husage).1
        (hthere i t husage)
    refine ⟨honce, habsent, fun i t husage => (huse i t husage).1, fun i t hexternal => ?_⟩
    exact (huse i t (List.mem_filter.1 hexternal).1).2 hexternal

end Script

end Wiring
