import Wiring.Proofs.Model.Nodes

/-!
# Instances of some types

`Model.withoutTypes` is a model without the instances of some types on one node.  Nothing
else of it is touched: on the first node of the name the other instances keep their order,
`components_withoutTypes`, and all other nodes, packages and channels stay as they are.

Removing addresses one after another comes to the same as leaving out all instances with
these addresses at once, `applyScript_removals`.
-/

namespace Wiring

/-! ## Keeping instances -/

/-- A node with some of its instances only. -/
def Node.keeping (keep : Instance → Bool) (n : Node) : Node :=
  { n with components := n.components.filter keep }

namespace Node

variable {keep keep' : Instance → Bool} {n : Node}

theorem name_keeping (keep : Instance → Bool) (n : Node) : (n.keeping keep).name = n.name := rfl

theorem keeping_keeping (keep keep' : Instance → Bool) (n : Node) :
    (n.keeping keep).keeping keep' = n.keeping fun c => keep' c && keep c :=
  congrArg (fun components => { n with components }) List.filter_filter

theorem keeping_congr (h : ∀ c ∈ n.components, keep c = keep' c) :
    n.keeping keep = n.keeping keep' := by
  rw [keeping, keeping, List.filter_congr h]

theorem keeping_eq_self (h : ∀ c ∈ n.components, keep c = true) : n.keeping keep = n := by
  rw [keeping, List.filter_eq_self.2 h]

end Node

namespace Model

variable {m : Model} {node : String}

theorem components_of_findNode {n : Node} (h : m.findNode node = some n) :
    m.components node = n.components := by
  rw [components, h]

/-- What is done to the first node of a name depends on that node alone. -/
theorem updateNode_go_congr {change change' : Node → Node} {nodes : List Node}
    (h : ∀ n, nodes.find? (fun n => n.name = node) = some n → change n = change' n) :
    updateNode.go node change nodes = updateNode.go node change' nodes := by
  induction nodes with
  | nil => rfl
  | cons n nodes ih =>
    rw [updateNode.go, updateNode.go]
    by_cases hn : n.name = node
    · rw [if_pos hn, if_pos hn, h n (List.find?_cons_of_pos (by simpa using hn))]
    · rw [if_neg hn, if_neg hn, ih fun first hfirst => h first ?_]
      rw [List.find?_cons_of_neg (by simpa using hn), hfirst]

theorem updateNode_congr {change change' : Node → Node}
    (h : ∀ n, m.findNode node = some n → change n = change' n) :
    m.updateNode node change = m.updateNode node change' :=
  congrArg (fun nodes => { m with nodes }) (updateNode_go_congr h)

theorem updateNode_eq_self {change : Node → Node}
    (h : ∀ n, m.findNode node = some n → change n = n) : m.updateNode node change = m :=
  congrArg (fun nodes => { m with nodes }) (updateNode_go_eq_self h)

theorem updateNode_updateNode {change change' : Node → Node}
    (hchange : ∀ n, (change n).name = n.name) (m : Model) (node : String) :
    (m.updateNode node change).updateNode node change' =
      m.updateNode node fun n => change' (change n) :=
  congrArg (fun nodes => { m with nodes }) (updateNode_go_go hchange m.nodes)

/-- What the model says of a name when instances of its first node are left out. -/
theorem components_updateNode_keeping (m : Model) (node : String) (keep : Instance → Bool) :
    (m.updateNode node (Node.keeping keep)).components node =
      (m.components node).filter keep := by
  cases hn : m.findNode node with
  | none =>
    rw [components, findNode_updateNode (Node.name_keeping keep), if_pos rfl, components, hn]
    rfl
  | some n =>
    rw [components_updateNode_self hn (Node.name_keeping keep), components_of_findNode hn]
    rfl

/-- Removals on one node leave out what has one of their addresses. -/
theorem applyScript_removals (m : Model) {paths : List ComponentPath}
    (hlocal : ∀ path ∈ paths, path.node = node) :
    m.applyScript (paths.map .remove) =
      m.updateNode node
        (Node.keeping fun c => !paths.contains (⟨node, c.name⟩ : ComponentPath)) := by
  induction paths generalizing m with
  | nil => exact (updateNode_eq_self fun n _ => Node.keeping_eq_self fun _ _ => rfl).symm
  | cons path paths ih =>
    obtain ⟨rfl, hrest⟩ := List.forall_mem_cons.1 hlocal
    have hremove : m.applyOp (.remove path) =
        m.updateNode path.node (Node.keeping fun c => c.name ≠ path.id) := rfl
    rw [List.map_cons, applyScript, List.foldl_cons, ← applyScript, ih _ hrest, hremove,
      updateNode_updateNode (Node.name_keeping _)]
    refine updateNode_congr fun n _ => (Node.keeping_keeping _ _ n).trans ?_
    refine Node.keeping_congr fun c _ => ?_
    -- On the node of the first address an instance is told by its id.
    have hfirst : (⟨path.node, c.name⟩ : ComponentPath) = path ↔ c.name = path.id := by
      cases path
      simp
    rw [List.contains_cons, Bool.not_or, beq_eq_decide, decide_eq_decide.2 hfirst,
      ← decide_not, Bool.and_comm]

end Model

/-! ## Some types -/

/-- The type of an instance has the simple name of one of some types. -/
def Instance.isOfSome (types : List String) (c : Instance) : Bool :=
  types.any fun typeName => (TypeName.parse c.typeName).sameSimple (TypeName.parse typeName)

theorem Instance.isOfSome_iff {types : List String} {c : Instance} :
    c.isOfSome types = true ↔
      ∃ typeName ∈ types,
        (TypeName.parse c.typeName).simple = (TypeName.parse typeName).simple := by
  simp only [isOfSome, List.any_eq_true, TypeName.sameSimple, decide_eq_true_eq]

namespace Model

/-- The instances of some types on a node, in the order of the node. -/
def instancesOf (m : Model) (types : List String) (node : String) : List Instance :=
  (m.components node).filter (Instance.isOfSome types)

/-- The model without the instances of some types on one node. -/
def withoutTypes (m : Model) (types : List String) (node : String) : Model :=
  m.updateNode node (Node.keeping fun c => !c.isOfSome types)

/-- What stays on the node are the instances of other types, in their order. -/
theorem components_withoutTypes (m : Model) (types : List String) (node : String) :
    (m.withoutTypes types node).components node =
      (m.components node).filter fun c => !c.isOfSome types :=
  components_updateNode_keeping m node _

theorem instancesOf_withoutTypes (m : Model) (types : List String) (node : String) :
    (m.withoutTypes types node).instancesOf types node = [] := by
  rw [instancesOf, components_withoutTypes, List.filter_filter, List.filter_eq_nil_iff]
  simp

/-- A model that has no instances of the types stays as it is. -/
theorem withoutTypes_eq_self {m : Model} {types : List String} {node : String}
    (h : m.instancesOf types node = []) : m.withoutTypes types node = m := by
  refine updateNode_eq_self fun n hn => Node.keeping_eq_self fun c hc => ?_
  rw [instancesOf, components_of_findNode hn, List.filter_eq_nil_iff] at h
  simpa using h c hc

end Model

end Wiring
