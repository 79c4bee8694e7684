import Wiring.Proofs.Model.Apply

/-!
# What runs after creations

A created component stands last among the components of its node, and a created channel
changes no node.  So creations leave the running instances of a type as they are, unless
they create one of that type, `runningOn_applyScript`.
-/

namespace Wiring.Model

variable {m m' : Model}

/-- Types are found in the packages. -/
theorem findType_congr (hpackages : m.packages = m'.packages) (typeName : String) :
    m.findType typeName = m'.findType typeName := by
  have hpath : ∀ path, m.findPackage path = m'.findPackage path := by
    intro path
    rw [findPackage, findPackage, hpackages]
  rw [findType, findType, hpath]

theorem components_addComponent (m : Model) (path : ComponentPath) (typeName node : String) :
    (m.applyOp (.addComponent path typeName)).components node =
      m.components node ++
        if path.node = node ∧ m.HasNode node then [⟨path.id, typeName⟩] else [] := by
  have hname : ∀ n : Node,
      ({ n with components := n.components ++ [⟨path.id, typeName⟩] } : Node).name = n.name :=
    fun _ => rfl
  rw [applyOp]
  by_cases hlocal : path.node = node
  · cases hn : m.findNode node with
    | none =>
      have hnone : ¬ m.HasNode node := by simp [HasNode, hn]
      rw [if_neg fun h => hnone h.2, components, findNode_updateNode hname,
        if_pos hlocal.symm, hlocal, hn, components, hn]
      rfl
    | some n =>
      have hthere : m.HasNode node := by simp [HasNode, hn]
      rw [if_pos ⟨hlocal, hthere⟩, hlocal, components_updateNode_self hn hname,
        components, hn]
  · rw [if_neg fun h => hlocal h.1, components_updateNode_of_ne (Ne.symm hlocal) hname,
      List.append_nil]

/-- Creating something else leaves the running instances of a type as they are. -/
theorem runningOn_applyOp {typeName : String} {op : Op} (hcreates : op.creates.isSome)
    (hother : ∀ path created, op = .addComponent path created →
      (TypeName.parse created).sameSimple (TypeName.parse typeName) = false) (node : String) :
    (m.applyOp op).runningOn typeName node = m.runningOn typeName node := by
  cases op with
  | addComponent path created =>
    have hsimple := hother path created rfl
    rw [runningOn, runningOn, components_addComponent, List.filter_append]
    split
    · rw [List.filter_cons_of_neg (by simp [hsimple]), List.filter_nil, List.append_nil]
    · rw [List.filter_nil, List.append_nil]
  | addChannel channel created => rfl
  | setAttribute path key value => simp [Op.creates] at hcreates
  | bind port channel => simp [Op.creates] at hcreates
  | remove path => simp [Op.creates] at hcreates

theorem runningOn_applyScript {typeName : String} {script : Script}
    (hcreates : ∀ op ∈ script, op.creates.isSome)
    (hother : ∀ path created, .addComponent path created ∈ script →
      (TypeName.parse created).sameSimple (TypeName.parse typeName) = false) (node : String) :
    (m.applyScript script).runningOn typeName node = m.runningOn typeName node := by
  induction script generalizing m with
  | nil => rfl
  | cons op script ih =>
    rw [applyScript, List.foldl_cons, ← applyScript]
    rw [ih (fun op' hop' => hcreates op' (List.mem_cons_of_mem _ hop'))
      fun path created hmem => hother path created (List.mem_cons_of_mem _ hmem)]
    refine runningOn_applyOp (hcreates op List.mem_cons_self) (fun path created heq => ?_) node
    exact hother path created (heq ▸ List.mem_cons_self)

end Wiring.Model
