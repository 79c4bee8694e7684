import Mathlib.Logic.Function.Basic
import Wiring.Proofs.Model.Apply
import Wiring.Proofs.Script.InOrder

/-!
# Executing scripts

A script is executed on what exists, one operation after the other.  An operation that
does not apply stops the execution, any other changes what exists.  There are two ways to
take removals: by name only, so that a removed component stays, or in deed.  An engine
that applies a script to a model takes them in deed, `Model.has_applyScript`.

A script passes the check exactly when it runs to its end with removals by name only,
`check_eq_ok_iff_executes`.  With removals in deed a script that passes the check runs to
its end exactly when no operation uses a component that was removed before,
`executes_iff_sparesRemoved`; nothing in the check looks for such an operation.
-/

namespace Wiring

/-- How an execution takes removals. -/
inductive Removal where
  /-- A removed component stays, so that a removal only has to find it. -/
  | byName
  /-- A removed component is gone. -/
  | inDeed
deriving DecidableEq, Repr

/-- What exists after an operation. -/
def Presence.next (removal : Removal) (present : Presence) : Op → Presence
  | .addComponent path _ => Function.update present (.component path) true
  | .addChannel channel _ => Function.update present (.channel channel) true
  | .setAttribute _ _ _ | .bind _ _ => present
  | .remove path =>
    match removal with
    | .byName => present
    | .inDeed => Function.update present (.component path) false

/-- Execute operations in order.  The result is what exists in the end, or nothing if
some operation does not apply. -/
def Script.execute (removal : Removal) (present : Presence) : Script → Option Presence
  | [] => some present
  | op :: script =>
    if op.Applies present then execute removal (present.next removal op) script else none

/-- A script runs to its end. -/
def Script.Executes (removal : Removal) (present : Presence) (script : Script) : Prop :=
  ∃ final, script.execute removal present = some final

namespace Script

variable {removal : Removal} {present : Presence}

theorem execute_cons_eq_some_iff {op : Op} {script : Script} {final : Presence} :
    execute removal present (op :: script) = some final ↔
      op.Applies present ∧ execute removal (present.next removal op) script = some final := by
  rw [execute]
  split <;> simp_all

theorem executes_nil : Executes removal present [] := ⟨present, rfl⟩

theorem executes_cons {op : Op} {script : Script} :
    Executes removal present (op :: script) ↔
      op.Applies present ∧ Executes removal (present.next removal op) script := by
  simp only [Executes, execute_cons_eq_some_iff, exists_and_left]

end Script

/-! ## Removals by name only -/

theorem Presence.next_byName (present : Presence) (op : Op) :
    present.next .byName op = present.after [op] := by
  funext t
  cases op with
  | addComponent path typeName =>
    by_cases h : t = .component path
    · simp [next, after, Script.additions, Op.creates, h]
    · simp [next, after, Script.additions, Op.creates, h]
  | addChannel channel typeName =>
    by_cases h : t = .channel channel
    · simp [next, after, Script.additions, Op.creates, h]
    · simp [next, after, Script.additions, Op.creates, h]
  | setAttribute path key value => simp [next, after, Script.additions, Op.creates]
  | bind port channel => simp [next, after, Script.additions, Op.creates]
  | remove path => simp [next, after, Script.additions, Op.creates]

theorem Script.executes_byName_iff {present : Presence} {script : Script} :
    script.Executes .byName present ↔ script.InOrder present := by
  induction script generalizing present with
  | nil => exact iff_of_true executes_nil (inOrder_nil present)
  | cons op script ih => rw [executes_cons, inOrder_cons, ih, Presence.next_byName]

/-- The check accepts exactly the scripts that run to their end, removals taken by name
only. -/
theorem Script.check_eq_ok_iff_executes (script : Script) (model : Model) :
    script.check model = .ok () ↔ script.Executes .byName model.has :=
  check_eq_ok_iff_inOrder.trans executes_byName_iff.symm

/-! ## Removals in deed -/

/-- What an operation removes. -/
def Op.removes : Op → List Target
  | .remove path => [.component path]
  | .addComponent _ _ | .addChannel _ _ | .setAttribute _ _ _ | .bind _ _ => []

/-- No operation uses what an operation before it removed. -/
def Script.SparesRemoved (script : Script) : Prop :=
  script.Pairwise fun op later => ∀ t ∈ op.removes, t ∉ later.uses

instance (script : Script) : Decidable script.SparesRemoved :=
  inferInstanceAs (Decidable (List.Pairwise _ script))

/-- What exists apart from some targets that are gone. -/
def Presence.without (present : Presence) (gone : List Target) : Presence :=
  fun t => present t && !gone.contains t

namespace Presence

variable {present : Presence} {gone : List Target} {op : Op}

theorem without_nil (present : Presence) : present.without [] = present := by
  funext t
  simp [without]

theorem without_eq_true_iff {t : Target} :
    present.without gone t = true ↔ present t = true ∧ t ∉ gone := by
  simp [without]

/-- An operation that would apply still does when it uses nothing that is gone. -/
theorem applies_without_iff (hop : op.Applies present) :
    op.Applies (present.without gone) ↔ ∀ t ∈ gone, t ∉ op.uses := by
  obtain ⟨hnew, hthere⟩ := Op.applies_iff.1 hop
  rw [Op.applies_iff]
  constructor
  · rintro ⟨-, hstill⟩ t hgone huse
    exact (without_eq_true_iff.1 (hstill t huse)).2 hgone
  · intro hspared
    refine ⟨fun t hcreates => ?_, fun t huse => ?_⟩
    · simp [without, hnew t hcreates]
    · exact without_eq_true_iff.2 ⟨hthere t huse, fun hgone => hspared t hgone huse⟩

/-- What is gone is named by the removals so far, all of which found it. -/
theorem next_inDeed_without (hop : op.Applies present) (hgone : ∀ t ∈ gone, present t = true) :
    (present.without gone).next .inDeed op =
      (present.next .byName op).without (gone ++ op.removes) := by
  -- What an operation adds is not there, so it is not gone either.
  have hadded : ∀ t, op.creates = some t → t ∉ gone := by
    intro t hcreates hmem
    have hnew := (Op.applies_iff.1 hop).1 t hcreates
    rw [hgone t hmem] at hnew
    contradiction
  funext t
  cases op with
  | addComponent path typeName =>
    have hpath : .component path ∉ gone := hadded _ rfl
    by_cases h : t = .component path
    · simp [next, without, Op.removes, h, hpath]
    · simp [next, without, Op.removes, h]
  | addChannel channel typeName =>
    have hchannel : .channel channel ∉ gone := hadded _ rfl
    by_cases h : t = .channel channel
    · simp [next, without, Op.removes, h, hchannel]
    · simp [next, without, Op.removes, h]
  | setAttribute path key value => simp [next, without, Op.removes]
  | bind port channel => simp [next, without, Op.removes]
  | remove path =>
    by_cases h : t = .component path
    · simp [next, without, Op.removes, h]
    · simp [next, without, Op.removes, h]

theorem removes_present (hop : op.Applies present) {t : Target} (ht : t ∈ op.removes) :
    present t = true := by
  cases op with
  | remove path =>
    obtain rfl : t = .component path := by simpa [Op.removes] using ht
    exact hop
  | addComponent path typeName => simp [Op.removes] at ht
  | addChannel channel typeName => simp [Op.removes] at ht
  | setAttribute path key value => simp [Op.removes] at ht
  | bind port channel => simp [Op.removes] at ht

end Presence

/-- A script in order runs from what is left of what exists exactly when it uses nothing
that is gone, before or by then. -/
theorem Script.executes_without_iff {present : Presence} (gone : List Target)
    {script : Script} (horder : script.InOrder present)
    (hgone : ∀ t ∈ gone, present t = true) :
    script.Executes .inDeed (present.without gone) ↔
      (∀ op ∈ script, ∀ t ∈ gone, t ∉ op.uses) ∧ script.SparesRemoved := by
  induction script generalizing present gone with
  | nil =>
    refine iff_of_true executes_nil ⟨fun op hop => ?_, List.Pairwise.nil⟩
    exact absurd hop List.not_mem_nil
  | cons op script ih =>
    obtain ⟨hop, hrest⟩ := inOrder_cons.1 horder
    rw [← Presence.next_byName] at hrest
    -- The removal in this operation joins what is gone for those after it.
    have hgone' : ∀ t ∈ gone ++ op.removes, present.next .byName op t = true := by
      intro t ht
      rw [Presence.next_byName, Presence.after_eq_true_iff]
      rcases List.mem_append.1 ht with ht | ht
      · exact Or.inl (hgone t ht)
      · exact Or.inl (Presence.removes_present hop ht)
    rw [executes_cons, Presence.applies_without_iff hop,
      Presence.next_inDeed_without hop hgone, ih _ hrest hgone', SparesRemoved, SparesRemoved,
      List.pairwise_cons]
    constructor
    · rintro ⟨hnow, hlater, hpairs⟩
      refine ⟨fun op' hop' => ?_, fun op' hop' t ht => ?_, hpairs⟩
      · rcases List.mem_cons.1 hop' with rfl | hop'
        · exact hnow
        · exact fun t ht => hlater op' hop' t (List.mem_append_left _ ht)
      · exact hlater op' hop' t (List.mem_append_right _ ht)
    · rintro ⟨hspared, hremoved, hpairs⟩
      refine ⟨hspared op List.mem_cons_self, fun op' hop' t ht => ?_, hpairs⟩
      rcases List.mem_append.1 ht with ht | ht
      · exact hspared op' (List.mem_cons_of_mem _ hop') t ht
      · exact hremoved op' hop' t ht

/-- A script that passes the check runs to its end with removals in deed exactly when it
uses nothing that it removed before. -/
theorem Script.executes_iff_sparesRemoved {script : Script} {model : Model}
    (hcheck : script.check model = .ok ()) :
    script.Executes .inDeed model.has ↔ script.SparesRemoved := by
  have horder : script.InOrder model.has := check_eq_ok_iff_inOrder.1 hcheck
  have hrun := executes_without_iff [] horder (fun t ht => absurd ht List.not_mem_nil)
  rw [Presence.without_nil] at hrun
  rw [hrun]
  exact and_iff_right fun op _ t ht => absurd ht List.not_mem_nil

namespace Script

/-- A node with a lamp. -/
def lampModel : Model where
  nodes := [{ name := "home1", components := [⟨"light_a", "org.activehome.Light"⟩] }]

/-- Where the lamp is. -/
def lampPath : ComponentPath := ⟨"home1", "light_a"⟩

theorem executes_iff_sparesRemoved_lamp :
    check [.setAttribute lampPath "level" "0", .remove lampPath] lampModel = .ok () ∧
      SparesRemoved [.setAttribute lampPath "level" "0", .remove lampPath] ∧
      Executes .inDeed lampModel.has [.setAttribute lampPath "level" "0", .remove lampPath] := by
  have hcheck : check [.setAttribute lampPath "level" "0", .remove lampPath] lampModel =
      .ok () := by decide +kernel
  have hspares : SparesRemoved [.setAttribute lampPath "level" "0", .remove lampPath] := by
    decide
  exact ⟨hcheck, hspares, (executes_iff_sparesRemoved hcheck).2 hspares⟩

/-- The check passes an assignment to a lamp that is removed before. -/
theorem check_removed_lamp :
    check [.remove lampPath, .setAttribute lampPath "level" "0"] lampModel = .ok () ∧
      ¬ Executes .inDeed lampModel.has
        [.remove lampPath, .setAttribute lampPath "level" "0"] := by
  have hcheck : check [.remove lampPath, .setAttribute lampPath "level" "0"] lampModel =
      .ok () := by decide +kernel
  refine ⟨hcheck, fun hexecutes => ?_⟩
  have hassign := (executes_cons.1 (executes_cons.1 hexecutes).2).1
  simp [Op.Applies, Presence.next] at hassign

end Script

/-! ## Applying a script to a model -/

/-- A component is there after an operation that adds it, or if it was there before and
the operation does not remove it. -/
theorem Presence.next_component_iff {present : Presence} {op : Op} {path : ComponentPath} :
    present.next .inDeed op (.component path) = true ↔
      (∃ typeName, op = .addComponent path typeName) ∨
        (present (.component path) = true ∧ op ≠ .remove path) := by
  cases op with
  | addComponent other typeName =>
    by_cases h : path = other
    · simp [next, h]
    · simp [next, h, Ne.symm h]
  | remove other =>
    by_cases h : path = other
    · simp [next, h]
    · simp [next, h, Ne.symm h]
  | addChannel channel typeName => simp [next]
  | setAttribute other key value => simp [next]
  | bind port channel => simp [next]

namespace Model

theorem has_component_applyOp {m : Model} {op : Op}
    (hnodes : ∀ path ∈ Script.addedComponents [op], m.HasNode path.node)
    (path : ComponentPath) :
    (m.applyOp op).has (.component path) =
      Presence.next .inDeed m.has op (.component path) := by
  apply Bool.eq_iff_iff.2
  rw [has_component_iff, Presence.next_component_iff, has_component_iff]
  by_cases hnode : m.HasNode path.node
  · rw [ids_applyOp hnode, Op.mem_idsAfter_iff]
  · -- On a node that is not there nothing is, and nothing is added.
    have hafter : ¬ (m.applyOp op).HasNode path.node :=
      fun h => hnode ((hasNode_applyOp_iff op).1 h)
    rw [ids_of_not_hasNode hafter, ids_of_not_hasNode hnode]
    refine iff_of_false List.not_mem_nil ?_
    rintro (⟨typeName, rfl⟩ | ⟨hmem, -⟩)
    · exact hnode (hnodes path List.mem_cons_self)
    · exact List.not_mem_nil hmem

theorem has_channel_applyOp (m : Model) (op : Op) (id : ChannelId) :
    (m.applyOp op).has (.channel id) = Presence.next .inDeed m.has op (.channel id) := by
  apply Bool.eq_iff_iff.2
  rw [has_channel_iff, hubNames_applyOp, List.mem_append, ← has_channel_iff]
  cases op with
  | addChannel channel typeName =>
    have hname : id.name = channel.name ↔ id = channel :=
      ⟨fun h => by cases id; cases channel; exact congrArg ChannelId.mk h, congrArg _⟩
    by_cases h : id = channel
    · simp [Script.addedChannels, Presence.next, h]
    · simp [Script.addedChannels, Presence.next, h, hname]
  | addComponent path typeName => simp [Script.addedChannels, Presence.next]
  | setAttribute path key value => simp [Script.addedChannels, Presence.next]
  | bind port channel => simp [Script.addedChannels, Presence.next]
  | remove path => simp [Script.addedChannels, Presence.next]

/-- An engine makes of a model what the operation makes of what exists, if the node of
an added component is there. -/
theorem has_applyOp {m : Model} {op : Op}
    (hnodes : ∀ path ∈ Script.addedComponents [op], m.HasNode path.node) :
    (m.applyOp op).has = Presence.next .inDeed m.has op := by
  funext t
  cases t with
  | component path => exact has_component_applyOp hnodes path
  | channel id => exact has_channel_applyOp m op id

/-- After a script that runs to its end, a model has what the execution says, if the nodes
of the added components are there. -/
theorem has_applyScript {m : Model} {script : Script} {final : Presence}
    (hnodes : ∀ path ∈ script.addedComponents, m.HasNode path.node)
    (hrun : script.execute .inDeed m.has = some final) :
    (m.applyScript script).has = final := by
  induction script generalizing m with
  | nil => exact Option.some.inj hrun
  | cons op script ih =>
    rw [Script.addedComponents_cons] at hnodes
    obtain ⟨-, hrest⟩ := Script.execute_cons_eq_some_iff.1 hrun
    rw [← has_applyOp fun path hpath => hnodes path (List.mem_append_left _ hpath)] at hrest
    refine ih (fun path hpath => ?_) hrest
    exact (hasNode_applyOp_iff op).2 (hnodes path (List.mem_append_right _ hpath))

end Model

end Wiring
