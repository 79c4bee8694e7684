import Wiring.Proofs.Model.Running

/-!
# Nodes and channels after a script

Only creations and removals of components change a node, so a script without them leaves
all nodes as they are, `nodes_applyScript_of_wiring`.  Channels are appended as the script
creates them, `hubs_applyScript`.  The removal of a component that was created where its id
was free brings the nodes back, `nodes_create_remove`.
-/

namespace Wiring

/-- Whether an operation changes a node. -/
def Op.changesNode : Op → Bool
  | .addComponent _ _ | .remove _ => true
  | .addChannel _ _ | .setAttribute _ _ _ | .bind _ _ => false

/-- A script that leaves the nodes as they are. -/
def Script.IsWiring (script : Script) : Prop := ∀ op ∈ script, op.changesNode = false

/-- The channels that a script creates, as they come to stand in a model. -/
def Script.addedHubs (script : Script) : List Hub :=
  script.filterMap fun
    | .addChannel channel typeName => some ⟨channel.name, typeName⟩
    | _ => none

/-- When a script creates all its channels with one type, they are told by their ids. -/
theorem Script.addedHubs_eq {script : Script} {typeName : String}
    (h : ∀ channel created, .addChannel channel created ∈ script → created = typeName) :
    script.addedHubs = script.addedChannels.map fun channel => ⟨channel.name, typeName⟩ := by
  induction script with
  | nil => rfl
  | cons op script ih =>
    have hrest := ih fun channel created hmem => h channel created (List.mem_cons_of_mem _ hmem)
    cases op with
    | addChannel channel created =>
      have hcreated := h channel created List.mem_cons_self
      exact congrArg₂ List.cons (congrArg _ hcreated) hrest
    | addComponent path created => exact hrest
    | setAttribute path key value => exact hrest
    | bind port channel => exact hrest
    | remove path => exact hrest

namespace Model

variable {m m' : Model}

/-! ## Channels -/

theorem hubs_applyScript (m : Model) (script : Script) :
    (m.applyScript script).hubs = m.hubs ++ script.addedHubs := by
  induction script generalizing m with
  | nil => exact (List.append_nil _).symm
  | cons op script ih =>
    rw [applyScript, List.foldl_cons, ← applyScript, ih]
    cases op with
    | addChannel channel typeName => exact List.append_assoc _ _ _
    | addComponent path typeName => rfl
    | setAttribute path key value => rfl
    | bind port channel => rfl
    | remove path => rfl

/-! ## Nodes -/

theorem components_congr (h : m.nodes = m'.nodes) (node : String) :
    m.components node = m'.components node := by
  rw [components, components, findNode, findNode, h]

theorem ids_congr (h : m.nodes = m'.nodes) (node : String) : m.ids node = m'.ids node := by
  rw [ids, ids, components_congr h]

theorem nodes_applyOp_of_wiring {op : Op} (hop : op.changesNode = false) (m : Model) :
    (m.applyOp op).nodes = m.nodes := by
  cases op with
  | addComponent path typeName => simp [Op.changesNode] at hop
  | remove path => simp [Op.changesNode] at hop
  | addChannel channel typeName => rfl
  | setAttribute path key value => rfl
  | bind port channel => rfl

/-- A script that creates and removes no component leaves the nodes as they are. -/
theorem nodes_applyScript_of_wiring {script : Script} (h : script.IsWiring) (m : Model) :
    (m.applyScript script).nodes = m.nodes := by
  induction script generalizing m with
  | nil => rfl
  | cons op script ih =>
    rw [applyScript, List.foldl_cons, ← applyScript,
      ih fun op' hop' => h op' (List.mem_cons_of_mem _ hop')]
    exact nodes_applyOp_of_wiring (h op List.mem_cons_self) m

/-- A component that is on a node stays there until it is removed. -/
theorem mem_ids_applyScript_of_kept {path : ComponentPath} {script : Script}
    (hid : path.id ∈ m.ids path.node) (hkept : .remove path ∉ script) :
    path.id ∈ (m.applyScript script).ids path.node := by
  induction script generalizing m with
  | nil => exact hid
  | cons op script ih =>
    have hnode : m.HasNode path.node := by
      by_contra hnone
      rw [ids_of_not_hasNode hnone] at hid
      exact absurd hid List.not_mem_nil
    refine ih ?_ fun hmem => hkept (List.mem_cons_of_mem _ hmem)
    rw [ids_applyOp hnode]
    exact Op.mem_idsAfter hid fun heq => hkept (heq ▸ List.mem_cons_self)

/-! ## Creating and removing again -/

theorem updateNode_go_go {name : String} {change change' : Node → Node}
    (hchange : ∀ n, (change n).name = n.name) (nodes : List Node) :
    updateNode.go name change' (updateNode.go name change nodes) =
      updateNode.go name (fun n => change' (change n)) nodes := by
  induction nodes with
  | nil => rfl
  | cons n nodes ih =>
    simp only [updateNode.go]
    by_cases hn : n.name = name
    · have hsame : (change n).name = name := (hchange n).trans hn
      simp only [if_pos hn, updateNode.go, if_pos hsame]
    · simp only [if_neg hn, updateNode.go, ih]

/-- A change that leaves the first node of the name as it is changes nothing. -/
theorem updateNode_go_eq_self {name : String} {change : Node → Node} {nodes : List Node}
    (h : ∀ n, nodes.find? (fun n => n.name = name) = some n → change n = n) :
    updateNode.go name change nodes = nodes := by
  induction nodes with
  | nil => rfl
  | cons n nodes ih =>
    rw [updateNode.go]
    by_cases hn : n.name = name
    · rw [if_pos hn, h n (List.find?_cons_of_pos (by simpa using hn))]
    · rw [if_neg hn, ih fun first hfirst => h first ?_]
      rw [List.find?_cons_of_neg (by simpa using hn), hfirst]

/-- The removal of a component takes back its creation where the id was free. -/
theorem nodes_create_remove {path : ComponentPath} (hfree : path.id ∉ m.ids path.node)
    (typeName : String) :
    ((m.applyOp (.addComponent path typeName)).applyOp (.remove path)).nodes = m.nodes := by
  have hname : ∀ n : Node,
      ({ n with components := n.components ++ [⟨path.id, typeName⟩] } : Node).name = n.name :=
    fun _ => rfl
  rw [applyOp, applyOp, updateNode, updateNode, updateNode_go_go hname]
  refine updateNode_go_eq_self fun n hn => ?_
  -- Nothing else on the node has the id.
  have hothers : ∀ component ∈ n.components, component.name ≠ path.id := by
    intro component hcomponent hsame
    refine hfree (List.mem_map.2 ⟨component, ?_, hsame⟩)
    have hfound : m.findNode path.node = some n := hn
    rw [components, hfound]
    exact hcomponent
  have hkept : (n.components ++ [(⟨path.id, typeName⟩ : Instance)]).filter
      (fun component => component.name ≠ path.id) = n.components := by
    rw [List.filter_append, List.filter_cons_of_neg (by simp), List.filter_nil, List.append_nil,
      List.filter_eq_self]
    exact fun component hcomponent => by simpa using hothers component hcomponent
  dsimp only
  rw [hkept]

end Model

end Wiring
