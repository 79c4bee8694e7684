import Mathlib.Order.Bounds.Basic
import Wiring.Proofs.Script.Execution
import Wiring.Proofs.Script.StableOrder

/-!
# The fault that the check names

When the operations of a script are attempted one after the other, some of them may not apply;
those are passed over and change nothing, `failures`.  Each of them has a fault of one of four
kinds, `mem_failures_iff_faulty`, one kind for each condition of the check.

The check examines one condition after the other, each over the whole script.  So it names the
first operation with a fault of the first kind that there is, `check_eq_error`; that is the first
operation that does not apply exactly when no operation before it has a fault of a later kind,
`isLeast_named_iff`.
-/

namespace Wiring

/-! ## Attempting every operation -/

/-- An operation that does not apply adds nothing: what it would create is there. -/
theorem Presence.after_of_not_applies {present : Presence} {op : Op}
    (h : ¬ op.Applies present) : present.after [op] = present := by
  funext t
  by_cases hcreates : op.creates = some t
  · have hthere : present t = true := by
      by_contra habsent
      refine h (Op.applies_iff.2 ⟨fun u hu => ?_, fun u hu => ?_⟩)
      · obtain rfl : t = u := Option.some.inj (hcreates.symm.trans hu)
        exact Bool.eq_false_of_not_eq_true habsent
      · simp [Op.uses_eq_nil_of_creates hcreates] at hu
    rw [hthere, after_of_present _ hthere]
  · have hnever : t ∉ Script.additions [op] := by
      intro hmem
      obtain ⟨other, hother, hothers⟩ := List.mem_filterMap.1 hmem
      obtain rfl := List.mem_singleton.1 hother
      exact hcreates hothers
    simp [after, hnever]

/-- The place of the condition that finds a fault among the conditions.  Faults of lines that
are no operations come behind all that the check looks for. -/
def ScriptFault.phase : ScriptFault → Nat
  | .addedTwice _ => 0
  | .alreadyPresent _ => 1
  | .usedBeforeAdded _ _ => 2
  | .unknown _ => 3
  | _ => 4

namespace Script

variable {present : Presence} {script : Script} {model : Model} {failure : Failure}
  {fault other : ScriptFault} {i j : Nat}

/-- The positions of the operations that do not apply when all are attempted in order, removals
taken by name only.  One that does not apply changes nothing.  The first operation stands at
`position`. -/
def failuresFrom (position : Nat) (present : Presence) : Script → List Nat
  | [] => []
  | op :: script =>
    if op.Applies present then failuresFrom (position + 1) (present.next .byName op) script
    else position :: failuresFrom (position + 1) present script

/-- The positions, from zero, of the operations that do not apply. -/
def failures (present : Presence) (script : Script) : List Nat := failuresFrom 0 present script

theorem mem_failuresFrom_iff {position : Nat} :
    i ∈ failuresFrom position present script ↔
      ∃ k op, i = position + k ∧ script[k]? = some op ∧
        ¬ op.Applies (present.after (script.take k)) := by
  induction script generalizing position present with
  | nil => simp [failuresFrom]
  | cons op script ih =>
    -- Whether it applies or not, the operations behind it find what it would add.
    have hsplit : (∃ k op', i = position + k ∧ (op :: script)[k]? = some op' ∧
          ¬ op'.Applies (present.after ((op :: script).take k))) ↔
        i = position ∧ ¬ op.Applies present ∨
          ∃ k op', i = position + 1 + k ∧ script[k]? = some op' ∧
            ¬ op'.Applies ((present.after [op]).after (script.take k)) := by
      constructor
      · rintro ⟨k, op', rfl, hop', hfails⟩
        cases k with
        | zero =>
          obtain rfl : op = op' := by simpa using hop'
          rw [List.take_zero, Presence.after_nil] at hfails
          exact Or.inl ⟨rfl, hfails⟩
        | succ k =>
          rw [List.take_succ_cons, ← List.singleton_append, Presence.after_append] at hfails
          exact Or.inr ⟨k, op', by omega, by simpa using hop', hfails⟩
      · rintro (⟨rfl, hfails⟩ | ⟨k, op', rfl, hop', hfails⟩)
        · exact ⟨0, op, rfl, rfl, by rwa [List.take_zero, Presence.after_nil]⟩
        · refine ⟨k + 1, op', by omega, by simpa using hop', ?_⟩
          rwa [List.take_succ_cons, ← List.singleton_append, Presence.after_append]
    rw [hsplit, failuresFrom]
    split
    · rename_i happlies
      rw [ih, Presence.next_byName]
      simp [happlies]
    · rename_i hfails
      rw [List.mem_cons, ih, Presence.after_of_not_applies hfails]
      simp [hfails]

theorem mem_failures_iff :
    i ∈ script.failures present ↔
      ∃ op, script[i]? = some op ∧ ¬ op.Applies (present.after (script.take i)) := by
  rw [failures, mem_failuresFrom_iff]
  constructor
  · rintro ⟨k, op, hk, hop, hfails⟩
    obtain rfl : i = k := by omega
    exact ⟨op, hop, hfails⟩
  · rintro ⟨op, hop, hfails⟩
    exact ⟨i, op, by omega, hop, hfails⟩

/-! ## Faults -/

/-- What is wrong with the operation at a position.  Each kind goes with one of the conditions
that the check examines. -/
inductive Faulty (present : Presence) (script : Script) (i : Nat) : ScriptFault → Prop
  | addedTwice {t : Target} (hcreation : (i, t) ∈ script.creations)
      (hearlier : t ∈ additions (script.take i)) : Faulty present script i (.addedTwice t)
  | alreadyPresent {t : Target} (hcreation : (i, t) ∈ script.creations)
      (hfirst : t ∉ additions (script.take i)) (hthere : present t = true) :
      Faulty present script i (.alreadyPresent t)
  | usedBeforeAdded {t : Target} {j : Nat} (husage : (i, t) ∈ script.usages)
      (habsent : present t = false) (hdefiner : script.definer t = some j) (hlater : i < j) :
      Faulty present script i (.usedBeforeAdded t (j + 1))
  | unknown {t : Target} (husage : (i, t) ∈ script.usages) (habsent : present t = false)
      (hnever : t ∉ script.additions) : Faulty present script i (.unknown t)

theorem mem_failures_iff_faulty :
    i ∈ script.failures present ↔ ∃ fault, script.Faulty present i fault := by
  rw [mem_failures_iff]
  constructor
  · rintro ⟨op, hop, hfails⟩
    rw [Op.applies_iff, not_and_or] at hfails
    push Not at hfails
    rcases hfails with ⟨t, hcreates, hthere⟩ | ⟨t, huse, habsent⟩
    · have hcreation : (i, t) ∈ script.creations := mem_creations_iff.2 ⟨op, hop, hcreates⟩
      have hafter := Presence.after_eq_true_iff.1 (Bool.eq_true_of_not_eq_false hthere)
      by_cases hearlier : t ∈ additions (script.take i)
      · exact ⟨_, .addedTwice hcreation hearlier⟩
      · exact ⟨_, .alreadyPresent hcreation hearlier (hafter.resolve_right hearlier)⟩
    · have husage : (i, t) ∈ script.usages := mem_usages_iff.2 ⟨op, hop, huse⟩
      have hafter := Presence.after_eq_false_iff.1 (Bool.eq_false_of_not_eq_true habsent)
      cases hdefiner : script.definer t with
      | none => exact ⟨_, .unknown husage hafter.1 (definer_eq_none_iff.1 hdefiner)⟩
      | some j =>
        -- A creation that does not come later would be among the operations before.
        have hlater : i < j := Nat.lt_of_not_le fun hle =>
          hafter.2 (mem_additions_take_of_definer husage hdefiner hle)
        exact ⟨_, .usedBeforeAdded husage hafter.1 hdefiner hlater⟩
  · rintro ⟨fault, hfaulty⟩
    cases hfaulty with
    | addedTwice hcreation hearlier =>
      obtain ⟨op, hop, hcreates⟩ := mem_creations_iff.1 hcreation
      refine ⟨op, hop, fun happlies => ?_⟩
      have hnew := (Op.applies_iff.1 happlies).1 _ hcreates
      exact (Presence.after_eq_false_iff.1 hnew).2 hearlier
    | alreadyPresent hcreation hfirst hthere =>
      obtain ⟨op, hop, hcreates⟩ := mem_creations_iff.1 hcreation
      refine ⟨op, hop, fun happlies => ?_⟩
      have hnew := (Op.applies_iff.1 happlies).1 _ hcreates
      simp [(Presence.after_eq_false_iff.1 hnew).1] at hthere
    | usedBeforeAdded husage habsent hdefiner hlater =>
      obtain ⟨op, hop, huse⟩ := mem_usages_iff.1 husage
      refine ⟨op, hop, fun happlies => ?_⟩
      have hthere := (Op.applies_iff.1 happlies).2 _ huse
      rcases Presence.after_eq_true_iff.1 hthere with hpresent | hearlier
      · simp [habsent] at hpresent
      · have hfirst := (definer_eq_some_iff.1 hdefiner).2
        exact hfirst (mem_additions_take_mono (Nat.le_of_lt hlater) hearlier)
    | unknown husage habsent hnever =>
      obtain ⟨op, hop, huse⟩ := mem_usages_iff.1 husage
      refine ⟨op, hop, fun happlies => ?_⟩
      have hthere := (Op.applies_iff.1 happlies).2 _ huse
      rcases Presence.after_eq_true_iff.1 hthere with hpresent | hearlier
      · simp [habsent] at hpresent
      · exact hnever (mem_additions_of_take hearlier)

/-! ## The order of the violations -/

/-- A violation is examined before another, or with it. -/
def ExaminedBefore (a b : Nat × ScriptFault) : Prop :=
  a.2.phase < b.2.phase ∨ a.2.phase = b.2.phase ∧ a.1 ≤ b.1

theorem pairwise_numbered (script : Script) :
    script.numbered.Pairwise fun a b => a.1 < b.1 := by
  rw [List.pairwise_iff_getElem]
  intro k l hk hl hlt
  simpa [numbered] using hlt

theorem pairwise_creations (script : Script) :
    script.creations.Pairwise fun a b => a.1 ≤ b.1 := by
  rw [creations, List.pairwise_filterMap]
  refine script.pairwise_numbered.imp ?_
  rintro ⟨k, op⟩ ⟨l, op'⟩ hlt a ha b hb
  obtain ⟨t, -, rfl⟩ := Option.map_eq_some_iff.1 ha
  obtain ⟨t', -, rfl⟩ := Option.map_eq_some_iff.1 hb
  exact Nat.le_of_lt hlt

theorem pairwise_usages (script : Script) :
    script.usages.Pairwise fun a b => a.1 ≤ b.1 := by
  rw [usages, List.pairwise_flatMap]
  constructor
  · rintro ⟨k, op⟩ -
    exact List.pairwise_map.2 (List.pairwise_of_forall fun _ _ => Nat.le_refl k)
  · refine script.pairwise_numbered.imp ?_
    rintro ⟨k, op⟩ ⟨l, op'⟩ hlt a ha b hb
    obtain ⟨t, -, rfl⟩ := List.mem_map.1 ha
    obtain ⟨t', -, rfl⟩ := List.mem_map.1 hb
    exact Nat.le_of_lt hlt

/-- Within one condition the violations stand in the order of their operations. -/
theorem pairwise_examined {α : Type} {l : List α} {phase : Nat} (position : α → Nat)
    (violation : α → Nat × ScriptFault) (hposition : ∀ a, (violation a).1 = position a)
    (hphase : ∀ a, (violation a).2.phase = phase)
    (h : l.Pairwise fun a b => position a ≤ position b) :
    (l.map violation).Pairwise ExaminedBefore := by
  refine List.pairwise_map.2 (h.imp fun {a b} hle => Or.inr ⟨?_, ?_⟩)
  · rw [hphase, hphase]
  · rwa [hposition, hposition]

theorem pairwise_append_examined (phase : Nat) {l m : List (Nat × ScriptFault)}
    (hl : l.Pairwise ExaminedBefore) (hm : m.Pairwise ExaminedBefore)
    (hbefore : ∀ a ∈ l, a.2.phase < phase) (hphase : ∀ a ∈ m, a.2.phase = phase) :
    (l ++ m).Pairwise ExaminedBefore :=
  List.pairwise_append.2 ⟨hl, hm, fun a ha b hb => Or.inl (hphase b hb ▸ hbefore a ha)⟩

/-- The violations stand in the order in which they are examined. -/
theorem pairwise_violations (script : Script) (model : Model) :
    (script.violations model).Pairwise ExaminedBefore := by
  have hcreations := script.pairwise_creations
  have husages := script.pairwise_usages
  have hduplicates := pairwise_examined (l := script.duplicates) Prod.fst
    (fun a => (a.1, .addedTwice a.2)) (fun _ => rfl) (fun _ => rfl) (hcreations.filter _)
  have hpresent := pairwise_examined (l := script.created.filter fun a => model.has a.2) Prod.fst
    (fun a => (a.1, .alreadyPresent a.2)) (fun _ => rfl) (fun _ => rfl)
    ((hcreations.filter _).filter _)
  have hsorted : (script.misordered.mergeSort fun a b => a.user ≤ b.user).Pairwise
      fun a b => a.user ≤ b.user := by
    refine (List.pairwise_mergeSort ?_ ?_ script.misordered).imp of_decide_eq_true
    · intro a b c hab hbc
      simp only [decide_eq_true_eq] at hab hbc ⊢
      exact Nat.le_trans hab hbc
    · intro a b
      simpa using Nat.le_total a.user b.user
  have hmisordered := pairwise_examined Edge.user
    (fun edge => (edge.user, .usedBeforeAdded edge.target (edge.creator + 1)))
    (fun _ => rfl) (fun _ => rfl) hsorted
  have hunknown := pairwise_examined (l := script.external.filter fun a => !model.has a.2)
    Prod.fst (fun a => (a.1, .unknown a.2)) (fun _ => rfl) (fun _ => rfl)
    ((husages.filter _).filter _)
  refine pairwise_append_examined 3 (pairwise_append_examined 2
    (pairwise_append_examined 1 hduplicates hpresent ?_ ?_) hmisordered ?_ ?_) hunknown ?_ ?_
  · exact List.forall_mem_map.2 fun _ _ => by simp [ScriptFault.phase]
  · exact List.forall_mem_map.2 fun _ _ => rfl
  · refine List.forall_mem_append.2 ⟨?_, ?_⟩ <;>
      exact List.forall_mem_map.2 fun _ _ => by simp [ScriptFault.phase]
  · exact List.forall_mem_map.2 fun _ _ => rfl
  · refine List.forall_mem_append.2 ⟨List.forall_mem_append.2 ⟨?_, ?_⟩, ?_⟩ <;>
      exact List.forall_mem_map.2 fun _ _ => by simp [ScriptFault.phase]
  · exact List.forall_mem_map.2 fun _ _ => rfl

/-! ## The fault that is named -/

theorem mem_duplicates_iff {t : Target} :
    (i, t) ∈ script.duplicates ↔ (i, t) ∈ script.creations ∧ t ∈ additions (script.take i) := by
  rw [duplicates, List.mem_filter, decide_eq_true_eq, Ne, definer_eq_some_iff]
  exact and_congr_right fun hcreation => by simp [hcreation]

theorem mem_created_iff {t : Target} :
    (i, t) ∈ script.created ↔ (i, t) ∈ script.creations ∧ t ∉ additions (script.take i) := by
  rw [created, List.mem_filter, decide_eq_true_eq, definer_eq_some_iff]
  exact and_congr_right fun hcreation => and_iff_right hcreation

theorem mem_external_iff {t : Target} :
    (i, t) ∈ script.external ↔ (i, t) ∈ script.usages ∧ t ∉ script.additions := by
  rw [external, List.mem_filter, decide_eq_true_eq, definer_eq_none_iff]

theorem mem_misordered_iff {edge : Edge} :
    edge ∈ script.misordered ↔ (edge.user, edge.target) ∈ script.usages ∧
      script.definer edge.target = some edge.creator ∧ edge.user < edge.creator := by
  obtain ⟨creator, user, target⟩ := edge
  rw [misordered, List.mem_filter, mem_edges_iff, decide_eq_true_eq, and_assoc]

/-- What the four parts of the violations are made of. -/
theorem mem_violations_iff : (i, fault) ∈ script.violations model ↔
    (∃ t, (i, t) ∈ script.duplicates ∧ .addedTwice t = fault) ∨
    (∃ t, ((i, t) ∈ script.created ∧ model.has t = true) ∧ .alreadyPresent t = fault) ∨
    (∃ edge ∈ script.misordered, edge.user = i ∧
      .usedBeforeAdded edge.target (edge.creator + 1) = fault) ∨
    ∃ t, ((i, t) ∈ script.external ∧ model.has t = false) ∧ .unknown t = fault := by
  have hat : ∀ (p : Nat → Target → Prop) (kind : Target → ScriptFault),
      (∃ k t, p k t ∧ k = i ∧ kind t = fault) ↔ ∃ t, p i t ∧ kind t = fault := by
    intro p kind
    constructor
    · rintro ⟨_, t, hp, rfl, hkind⟩
      exact ⟨t, hp, hkind⟩
    · rintro ⟨t, hp, hkind⟩
      exact ⟨i, t, hp, rfl, hkind⟩
  simp only [violations, List.mem_append, List.mem_map, List.mem_filter, List.mem_mergeSort,
    Prod.exists, Prod.mk.injEq, Bool.not_eq_true', or_assoc, hat]

theorem mem_violations_of_faulty (h : script.Faulty model.has i fault) :
    (i, fault) ∈ script.violations model := by
  rw [mem_violations_iff]
  cases h with
  | addedTwice hcreation hearlier =>
    exact Or.inl ⟨_, mem_duplicates_iff.2 ⟨hcreation, hearlier⟩, rfl⟩
  | alreadyPresent hcreation hfirst hthere =>
    exact Or.inr (Or.inl ⟨_, ⟨mem_created_iff.2 ⟨hcreation, hfirst⟩, hthere⟩, rfl⟩)
  | @usedBeforeAdded t j husage habsent hdefiner hlater =>
    have hmisordered : (⟨j, i, t⟩ : Edge) ∈ script.misordered :=
      mem_misordered_iff.2 ⟨husage, hdefiner, hlater⟩
    exact Or.inr (Or.inr (Or.inl ⟨_, hmisordered, rfl, rfl⟩))
  | unknown husage habsent hnever =>
    have hexternal := mem_external_iff.2 ⟨husage, hnever⟩
    exact Or.inr (Or.inr (Or.inr ⟨_, ⟨hexternal, habsent⟩, rfl⟩))

/-- The violation that is examined first is the fault of an operation that does not apply.  A
use before the creation is none where the target is there from the start; but then the creation
is examined first. -/
theorem faulty_of_mem_violations (h : (i, fault) ∈ script.violations model)
    (hfirst : ∀ a ∈ script.violations model, ExaminedBefore (i, fault) a) :
    script.Faulty model.has i fault := by
  rcases mem_violations_iff.1 h with ⟨t, hmem, rfl⟩ | ⟨t, ⟨hmem, hthere⟩, rfl⟩ |
    ⟨edge, hmem, rfl, rfl⟩ | ⟨t, ⟨hmem, habsent⟩, rfl⟩
  · obtain ⟨hcreation, hearlier⟩ := mem_duplicates_iff.1 hmem
    exact .addedTwice hcreation hearlier
  · obtain ⟨hcreation, hnew⟩ := mem_created_iff.1 hmem
    exact .alreadyPresent hcreation hnew hthere
  · obtain ⟨husage, hdefiner, hlater⟩ := mem_misordered_iff.1 hmem
    refine .usedBeforeAdded husage ?_ hdefiner hlater
    by_contra hthere
    obtain ⟨hcreation, hnew⟩ := definer_eq_some_iff.1 hdefiner
    have hpresent := mem_violations_of_faulty (.alreadyPresent hcreation hnew
      (Bool.eq_true_of_not_eq_false hthere))
    have hexamined := hfirst _ hpresent
    simp [ExaminedBefore, ScriptFault.phase] at hexamined
  · obtain ⟨husage, hnever⟩ := mem_external_iff.1 hmem
    exact .unknown husage habsent hnever

/-- A check that fails names the fault that is examined first, at its operation. -/
theorem check_eq_error (h : script.check model = .error failure) :
    ∃ i fault, failure = .invalidScript (i + 1) fault ∧ script.Faulty model.has i fault ∧
      ∀ j other, script.Faulty model.has j other → ExaminedBefore (i, fault) (j, other) := by
  have hpairwise := script.pairwise_violations model
  rw [check] at h
  split at h
  · contradiction
  · rename_i i fault rest hviolations
    have hfirst : ∀ a ∈ script.violations model, ExaminedBefore (i, fault) a := by
      rw [hviolations] at hpairwise ⊢
      intro a ha
      rcases List.mem_cons.1 ha with rfl | ha
      · exact Or.inr ⟨rfl, Nat.le_refl _⟩
      · exact (List.pairwise_cons.1 hpairwise).1 a ha
    have hmem : (i, fault) ∈ script.violations model := hviolations ▸ List.mem_cons_self
    exact ⟨i, fault, (Except.error.inj h).symm, faulty_of_mem_violations hmem hfirst,
      fun j other hfaulty => hfirst _ (mem_violations_of_faulty hfaulty)⟩

/-! ## The first operation that does not apply -/

/-- A check that fails names an operation that does not apply, and its fault: the first
operation with a fault of the first kind that any operation has.  It is the first operation that
does not apply exactly when no operation before it has a fault of a kind that the check looks
for later. -/
theorem isLeast_named_iff (h : script.check model = .error failure) :
    (∀ j, j ∈ script.failures model.has ↔ ∃ other, script.Faulty model.has j other) ∧
    ∃ i fault, failure = .invalidScript (i + 1) fault ∧ script.Faulty model.has i fault ∧
      (∀ j other, script.Faulty model.has j other → fault.phase ≤ other.phase) ∧
      IsLeast {j | ∃ other, script.Faulty model.has j other ∧ other.phase = fault.phase} i ∧
      (IsLeast {j | j ∈ script.failures model.has} i ↔
        ∀ j < i, ∀ other, script.Faulty model.has j other → other.phase ≤ fault.phase) := by
  obtain ⟨i, fault, rfl, hfaulty, hexamined⟩ := check_eq_error h
  refine ⟨fun j => mem_failures_iff_faulty, i, fault, rfl, hfaulty, fun j other hother => ?_,
    ⟨⟨fault, hfaulty, rfl⟩, ?_⟩, ?_, ?_⟩
  · rcases hexamined j other hother with hlt | ⟨heq, -⟩
    · exact Nat.le_of_lt hlt
    · exact Nat.le_of_eq heq
  · rintro j ⟨other, hother, hsame⟩
    rcases hexamined j other hother with hlt | ⟨-, hle⟩
    · exact absurd hsame (Nat.ne_of_gt hlt)
    · exact hle
  · rintro ⟨-, hleast⟩ j hlt other hother
    have hle : i ≤ j := hleast (mem_failures_iff_faulty.2 ⟨other, hother⟩)
    omega
  · intro hearlier
    refine ⟨mem_failures_iff_faulty.2 ⟨fault, hfaulty⟩, fun j hfails => ?_⟩
    obtain ⟨other, hother⟩ := mem_failures_iff_faulty.1 hfails
    rcases hexamined j other hother with hlt | ⟨-, hle⟩
    · exact Nat.le_of_not_lt fun hji => absurd (hearlier j hji other hother) (Nat.not_le.2 hlt)
    · exact hle

/-- A removal of a lamp that is not there, and a channel that is added twice. -/
def ghostScript : Script :=
  [.remove lampPath, .addChannel ⟨"c"⟩ "AsyncBroadcast", .addChannel ⟨"c"⟩ "AsyncBroadcast"]

theorem isLeast_named_iff_ghostScript :
    ghostScript.check {} = .error (.invalidScript 3 (.addedTwice (.channel ⟨"c"⟩))) ∧
      IsLeast {j | ∃ other, ghostScript.Faulty (Model.has {}) j other ∧ other.phase = 0} 2 ∧
      (IsLeast {j | j ∈ ghostScript.failures (Model.has {})} 2 ↔
        ∀ j < 2, ∀ other, ghostScript.Faulty (Model.has {}) j other → other.phase ≤ 0) := by
  have hcheck : ghostScript.check {} =
      .error (.invalidScript 3 (.addedTwice (.channel ⟨"c"⟩))) := by decide +kernel
  obtain ⟨-, i, fault, hnamed, -, -, hleast, hiff⟩ := isLeast_named_iff hcheck
  obtain ⟨hline, rfl⟩ := Failure.invalidScript.inj hnamed
  obtain rfl : 2 = i := Nat.succ.inj hline
  exact ⟨hcheck, hleast, hiff⟩

/-- The second creation of the channel is named, although the removal in front of both does not
apply. -/
theorem check_ghostScript_not_least :
    ¬ ∀ (script : Script) (model : Model) (line : Nat) (fault : ScriptFault),
      script.check model = .error (.invalidScript line fault) →
      ∃ i, line = i + 1 ∧ IsLeast {j | j ∈ script.failures model.has} i := by
  intro hall
  have hcheck : ghostScript.check {} =
      .error (.invalidScript 3 (.addedTwice (.channel ⟨"c"⟩))) := by decide +kernel
  obtain ⟨i, hline, hleast⟩ := hall _ _ _ _ hcheck
  have hremoval : 0 ∈ ghostScript.failures (Model.has {}) := by decide +kernel
  have hle : i ≤ 0 := hleast.2 hremoval
  omega

end Script

end Wiring
