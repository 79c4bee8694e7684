import Mathlib.Data.List.Nodup
import Wiring.Linker.Plant
import Wiring.Model.Lookup

/-!
# What applying a script does to a model

Of a node only the list of ids matters here, and of the channels the list of names:
an applied script appends the names of the channels that it creates, and a creation or
a removal of a component appends an id to the list of its node or takes it out.

`Model.Tracks` ties the ids of a node to the operations that were applied: no id stands
twice, whatever was created and not removed since is there, and between two creations
of one component there was its removal.  Applying a script keeps this as long as the
script creates components on the node that are not there yet, `Tracks.applyScript`.
-/

namespace Wiring

/-! ## What a script creates -/

/-- The components that a script creates, in its order. -/
def Script.addedComponents (script : Script) : List ComponentPath :=
  script.filterMap fun
    | .addComponent path _ => some path
    | _ => none

/-- The channels that a script creates, in its order. -/
def Script.addedChannels (script : Script) : List ChannelId :=
  script.filterMap fun
    | .addChannel channel _ => some channel
    | _ => none

theorem Script.addedComponents_append (s t : Script) :
    Script.addedComponents (s ++ t) = s.addedComponents ++ t.addedComponents :=
  List.filterMap_append

theorem Script.addedChannels_append (s t : Script) :
    Script.addedChannels (s ++ t) = s.addedChannels ++ t.addedChannels :=
  List.filterMap_append

theorem Script.addedComponents_cons (op : Op) (script : Script) :
    Script.addedComponents (op :: script) =
      Script.addedComponents [op] ++ script.addedComponents :=
  Script.addedComponents_append [op] script

theorem Script.addedChannels_cons (op : Op) (script : Script) :
    Script.addedChannels (op :: script) =
      Script.addedChannels [op] ++ script.addedChannels :=
  Script.addedChannels_append [op] script

/-- Channels are known by their names. -/
theorem nodup_map_name {channels : List ChannelId} (h : channels.Nodup) :
    (channels.map (·.name)).Nodup := by
  refine h.map fun a b hname => ?_
  cases a
  cases b
  exact congrArg ChannelId.mk hname

/-- A script that creates nothing. -/
structure Script.CreatesNothing (script : Script) : Prop where
  components : script.addedComponents = []
  channels : script.addedChannels = []

theorem Script.createsNothing_map {α : Type} {f : α → Op}
    (hf : ∀ a, Script.CreatesNothing [f a]) (l : List α) :
    Script.CreatesNothing (l.map f) := by
  induction l with
  | nil => exact ⟨rfl, rfl⟩
  | cons a l ih =>
    constructor
    · rw [List.map_cons, Script.addedComponents_cons, (hf a).components, ih.components]
      rfl
    · rw [List.map_cons, Script.addedChannels_cons, (hf a).channels, ih.channels]
      rfl

/-! ## Nodes -/

namespace Model

/-- The ids of the components on a node, in their order. -/
def ids (m : Model) (node : String) : List String := (m.components node).map (·.name)

/-- The names of the channels, in their order. -/
def hubNames (m : Model) : List String := m.hubs.map (·.name)

/-- Whether the model has a node. -/
def HasNode (m : Model) (node : String) : Prop := (m.findNode node).isSome = true

instance (m : Model) (node : String) : Decidable (m.HasNode node) :=
  inferInstanceAs (Decidable ((m.findNode node).isSome = true))

theorem findComponent_eq_none_iff {m : Model} {node id : String} :
    m.findComponent node id = none ↔ id ∉ m.ids node := by
  simp [findComponent, ids, List.find?_eq_none]

theorem findHub_eq_none_iff {m : Model} {name : String} :
    m.findHub name = none ↔ name ∉ m.hubNames := by
  simp [findHub, hubNames, List.find?_eq_none]

theorem has_component_iff {m : Model} {path : ComponentPath} :
    m.has (.component path) = true ↔ path.id ∈ m.ids path.node := by
  rw [has, Option.isSome_iff_ne_none, ne_eq, findComponent_eq_none_iff, not_not]

theorem has_channel_iff {m : Model} {id : ChannelId} :
    m.has (.channel id) = true ↔ id.name ∈ m.hubNames := by
  rw [has, Option.isSome_iff_ne_none, ne_eq, findHub_eq_none_iff, not_not]

theorem find?_updateNode_go {name : String} {change : Node → Node}
    (hchange : ∀ n, (change n).name = n.name) (nodes : List Node) (other : String) :
    (updateNode.go name change nodes).find? (fun n => n.name = other) =
      if other = name then (nodes.find? fun n => n.name = name).map change
      else nodes.find? fun n => n.name = other := by
  induction nodes with
  | nil => simp [updateNode.go]
  | cons n nodes ih =>
    rw [updateNode.go]
    by_cases hn : n.name = name
    · rw [if_pos hn]
      by_cases hother : other = name
      · simp [hother, hn, hchange]
      · have hne : ¬ n.name = other := fun h => hother (h.symm.trans hn)
        simp [hother, hne, hchange]
    · rw [if_neg hn]
      by_cases hother : other = name
      · subst hother
        simpa [hn] using ih
      · rw [if_neg hother] at ih ⊢
        by_cases hsame : n.name = other
        · simp [hsame]
        · simpa [hsame] using ih

theorem findNode_updateNode {change : Node → Node} (hchange : ∀ n, (change n).name = n.name)
    (m : Model) (name other : String) :
    (m.updateNode name change).findNode other =
      if other = name then (m.findNode name).map change else m.findNode other :=
  find?_updateNode_go hchange m.nodes other

theorem components_updateNode_self {m : Model} {name : String} {n : Node}
    (hn : m.findNode name = some n) {change : Node → Node}
    (hchange : ∀ n, (change n).name = n.name) :
    (m.updateNode name change).components name = (change n).components := by
  rw [components, findNode_updateNode hchange, if_pos rfl, hn, Option.map_some]

theorem components_updateNode_of_ne {m : Model} {name other : String} (hne : other ≠ name)
    {change : Node → Node} (hchange : ∀ n, (change n).name = n.name) :
    (m.updateNode name change).components other = m.components other := by
  rw [components, findNode_updateNode hchange, if_neg hne]
  rfl

theorem hasNode_updateNode_iff {m : Model} {name node : String} {change : Node → Node}
    (hchange : ∀ n, (change n).name = n.name) :
    (m.updateNode name change).HasNode node ↔ m.HasNode node := by
  rw [HasNode, HasNode, findNode_updateNode hchange]
  split
  · rename_i heq
    rw [Option.isSome_map, heq]
  · rfl

theorem ids_of_not_hasNode {m : Model} {node : String} (hnode : ¬ m.HasNode node) :
    m.ids node = [] := by
  rw [HasNode, Option.not_isSome_iff_eq_none] at hnode
  rw [ids, components, hnode]
  rfl

end Model

/-! ## Operations -/

theorem ComponentPath.eq_of_eq {path other : ComponentPath} (hnode : path.node = other.node)
    (hid : path.id = other.id) : path = other := by
  cases path
  cases other
  exact congrArg₂ ComponentPath.mk hnode hid

/-- The ids of a node after an operation. -/
def Op.idsAfter (node : String) (ids : List String) : Op → List String
  | .addComponent path _ => if path.node = node then ids ++ [path.id] else ids
  | .remove path => if path.node = node then ids.filter fun id => id ≠ path.id else ids
  | .addChannel _ _ | .setAttribute _ _ _ | .bind _ _ => ids

theorem Op.idsAfter_sublist (node : String) (ids : List String) (op : Op) :
    (op.idsAfter node ids).Sublist (ids ++ (Script.addedComponents [op]).map (·.id)) := by
  cases op with
  | addComponent path typeName =>
    rw [Op.idsAfter]
    split
    · exact List.Sublist.refl _
    · exact List.sublist_append_left _ _
  | remove path =>
    rw [Op.idsAfter]
    split
    · exact List.filter_sublist.trans (List.sublist_append_left _ _)
    · exact List.sublist_append_left _ _
  | addChannel channel typeName => exact List.sublist_append_left _ _
  | setAttribute path key value => exact List.sublist_append_left _ _
  | bind port channel => exact List.sublist_append_left _ _

/-- A component stays on its node unless it is removed. -/
theorem Op.mem_idsAfter {ids : List String} {path : ComponentPath} (hmem : path.id ∈ ids)
    {op : Op} (hkept : op ≠ .remove path) : path.id ∈ op.idsAfter path.node ids := by
  cases op with
  | addComponent other typeName =>
    rw [Op.idsAfter]
    split
    · exact List.mem_append_left _ hmem
    · exact hmem
  | remove other =>
    rw [Op.idsAfter]
    split
    · rename_i hnode
      -- Another component of the node has another id.
      have hid : path.id ≠ other.id := by
        intro hid
        exact hkept (congrArg Op.remove (ComponentPath.eq_of_eq hnode hid.symm))
      exact List.mem_filter.2 ⟨hmem, decide_eq_true hid⟩
    · exact hmem
  | addChannel channel typeName => exact hmem
  | setAttribute other key value => exact hmem
  | bind port channel => exact hmem

theorem Op.mem_idsAfter_iff {ids : List String} {op : Op} {path : ComponentPath} :
    path.id ∈ op.idsAfter path.node ids ↔
      (∃ typeName, op = .addComponent path typeName) ∨
        (path.id ∈ ids ∧ op ≠ .remove path) := by
  constructor
  · intro hmem
    cases op with
    | addComponent other typeName =>
      by_cases h : other = path
      · exact Or.inl ⟨typeName, by rw [h]⟩
      · refine Or.inr ⟨?_, by simp⟩
        rw [idsAfter] at hmem
        split at hmem
        · rename_i hnode
          rcases List.mem_append.1 hmem with hmem | hmem
          · exact hmem
          · -- Another component of the node has another id.
            have hid : path.id = other.id := by simpa using hmem
            exact absurd (ComponentPath.eq_of_eq hnode hid.symm) h
        · exact hmem
    | remove other =>
      rw [idsAfter] at hmem
      split at hmem
      · obtain ⟨hmem, hid⟩ := List.mem_filter.1 hmem
        refine Or.inr ⟨hmem, fun h => ?_⟩
        obtain rfl := Op.remove.inj h
        simp at hid
      · rename_i hnode
        exact Or.inr ⟨hmem, fun h => hnode (congrArg ComponentPath.node (Op.remove.inj h))⟩
    | addChannel channel typeName => exact Or.inr ⟨hmem, by simp⟩
    | setAttribute other key value => exact Or.inr ⟨hmem, by simp⟩
    | bind port channel => exact Or.inr ⟨hmem, by simp⟩
  · rintro (⟨typeName, rfl⟩ | ⟨hmem, hkept⟩)
    · simp [idsAfter]
    · exact mem_idsAfter hmem hkept

namespace Model

theorem hasNode_applyOp_iff {m : Model} {node : String} (op : Op) :
    (m.applyOp op).HasNode node ↔ m.HasNode node := by
  cases op with
  | addComponent path typeName => exact hasNode_updateNode_iff fun _ => rfl
  | remove path => exact hasNode_updateNode_iff fun _ => rfl
  | addChannel channel typeName => exact Iff.rfl
  | setAttribute path key value => exact Iff.rfl
  | bind port channel => exact Iff.rfl

theorem ids_applyOp {m : Model} {node : String} (hnode : m.HasNode node) (op : Op) :
    (m.applyOp op).ids node = op.idsAfter node (m.ids node) := by
  obtain ⟨n, hn⟩ := Option.isSome_iff_exists.1 hnode
  have hcomponents : m.components node = n.components := by rw [components, hn]
  cases op with
  | addComponent path typeName =>
    rw [applyOp, ids, Op.idsAfter]
    by_cases hlocal : path.node = node
    · rw [if_pos hlocal, hlocal, components_updateNode_self hn, ids, hcomponents]
      · exact List.map_append
      · exact fun _ => rfl
    · rw [if_neg hlocal, components_updateNode_of_ne (Ne.symm hlocal), ids]
      exact fun _ => rfl
  | remove path =>
    rw [applyOp, ids, Op.idsAfter]
    by_cases hlocal : path.node = node
    · rw [if_pos hlocal, hlocal, components_updateNode_self hn, ids, hcomponents]
      · rw [List.filter_map]
        rfl
      · exact fun _ => rfl
    · rw [if_neg hlocal, components_updateNode_of_ne (Ne.symm hlocal), ids]
      exact fun _ => rfl
  | addChannel channel typeName => rfl
  | setAttribute path key value => rfl
  | bind port channel => rfl

theorem packages_applyOp (m : Model) (op : Op) : (m.applyOp op).packages = m.packages := by
  cases op <;> rfl

theorem hubNames_applyOp (m : Model) (op : Op) :
    (m.applyOp op).hubNames =
      m.hubNames ++ (Script.addedChannels [op]).map (·.name) := by
  cases op with
  | addChannel channel typeName =>
    rw [applyOp, hubNames, List.map_append]
    rfl
  | addComponent path typeName => exact (List.append_nil _).symm
  | setAttribute path key value => exact (List.append_nil _).symm
  | bind port channel => exact (List.append_nil _).symm
  | remove path => exact (List.append_nil _).symm

/-! ## Scripts -/

theorem packages_applyScript (m : Model) (script : Script) :
    (m.applyScript script).packages = m.packages := by
  induction script generalizing m with
  | nil => rfl
  | cons op script ih =>
    rw [applyScript, List.foldl_cons]
    exact (ih (m.applyOp op)).trans (packages_applyOp m op)

theorem applyScript_append (m : Model) (s t : Script) :
    m.applyScript (s ++ t) = (m.applyScript s).applyScript t :=
  List.foldl_append

theorem nodes_applyOp_congr {m m' : Model} (h : m.nodes = m'.nodes) (op : Op) :
    (m.applyOp op).nodes = (m'.applyOp op).nodes := by
  cases op with
  | addComponent path typeName => exact congrArg (updateNode.go path.node _) h
  | remove path => exact congrArg (updateNode.go path.node _) h
  | addChannel channel typeName => exact h
  | setAttribute path key value => exact h
  | bind port channel => exact h

/-- What a script makes of the nodes depends on the nodes alone. -/
theorem nodes_applyScript_congr {m m' : Model} (h : m.nodes = m'.nodes) {script : Script} :
    (m.applyScript script).nodes = (m'.applyScript script).nodes := by
  induction script generalizing m m' with
  | nil => exact h
  | cons op script ih => exact ih (nodes_applyOp_congr h op)

/-- Channels are only ever added. -/
theorem hubNames_applyScript (m : Model) (script : Script) :
    (m.applyScript script).hubNames =
      m.hubNames ++ script.addedChannels.map (·.name) := by
  induction script generalizing m with
  | nil => exact (List.append_nil _).symm
  | cons op script ih =>
    rw [applyScript, List.foldl_cons, Script.addedChannels_cons, List.map_append, ← List.append_assoc,
      ← hubNames_applyOp]
    exact ih (m.applyOp op)

theorem mem_ids_applyOp {m : Model} {node id : String} {op : Op}
    (hid : id ∈ (m.applyOp op).ids node) :
    id ∈ m.ids node ∨ ∃ path ∈ Script.addedComponents [op], path.id = id := by
  by_cases hnode : m.HasNode node
  · rw [ids_applyOp hnode] at hid
    have hmem := (op.idsAfter_sublist node (m.ids node)).subset hid
    exact (List.mem_append.1 hmem).imp_right List.mem_map.1
  · rw [ids_of_not_hasNode fun h => hnode ((hasNode_applyOp_iff op).1 h)] at hid
    exact absurd hid List.not_mem_nil

/-- The ids of a node after a script were there before, or the script created them. -/
theorem mem_ids_applyScript {m : Model} {node id : String} {script : Script}
    (hid : id ∈ (m.applyScript script).ids node) :
    id ∈ m.ids node ∨ ∃ path ∈ script.addedComponents, path.id = id := by
  induction script generalizing m with
  | nil => exact Or.inl hid
  | cons op script ih =>
    rw [Script.addedComponents_cons]
    rcases ih hid with hmem | ⟨path, hpath, hsame⟩
    · rcases mem_ids_applyOp hmem with hold | ⟨path, hpath, hsame⟩
      · exact Or.inl hold
      · exact Or.inr ⟨path, List.mem_append_left _ hpath, hsame⟩
    · exact Or.inr ⟨path, List.mem_append_right _ hpath, hsame⟩

end Model

/-! ## Creations and removals in a trace -/

namespace Script

/-- Between two creations of one component there is its removal. -/
def AddsApart (trace : Script) : Prop :=
  ∀ (before between after : Script) (path : ComponentPath) (t t' : String),
    trace = before ++ .addComponent path t :: (between ++ .addComponent path t' :: after) →
      .remove path ∈ between

/-- A component was created and not removed since. -/
def Leaves (trace : Script) (path : ComponentPath) : Prop :=
  ∃ (before after : Script) (t : String),
    trace = before ++ .addComponent path t :: after ∧ .remove path ∉ after

theorem addsApart_nil : AddsApart [] := by
  intro before between after path t t' h
  simp at h

theorem not_leaves_nil (path : ComponentPath) : ¬ Leaves [] path := by
  rintro ⟨before, after, t, h, -⟩
  simp at h

theorem leaves_concat {trace : Script} {op : Op} {path : ComponentPath}
    (h : Leaves (trace ++ [op]) path) :
    (∃ t, op = .addComponent path t) ∨ (Leaves trace path ∧ op ≠ .remove path) := by
  obtain ⟨before, after, t, htrace, hafter⟩ := h
  -- The creation is the last operation, or it lies in the trace before.
  rcases List.eq_nil_or_concat after with rfl | ⟨front, last, rfl⟩
  · have hlast := (List.append_inj' htrace rfl).2
    exact Or.inl ⟨t, (List.cons.inj hlast).1⟩
  · rw [List.concat_eq_append] at htrace hafter
    have hsplit : trace ++ [op] = (before ++ .addComponent path t :: front) ++ [last] := by
      rw [htrace, List.append_assoc, List.cons_append]
    obtain ⟨rfl, hop⟩ := List.append_inj' hsplit rfl
    obtain rfl := (List.cons.inj hop).1
    refine Or.inr ⟨⟨before, front, t, rfl, fun hmem => ?_⟩, fun heq => ?_⟩
    · exact hafter (List.mem_append_left _ hmem)
    · exact hafter (List.mem_append_right _ (List.mem_singleton.2 heq.symm))

theorem AddsApart.concat {trace : Script} (h : trace.AddsApart) {op : Op}
    (hop : ∀ path t, op = .addComponent path t → ¬ trace.Leaves path) :
    AddsApart (trace ++ [op]) := by
  intro before between after path t t' htrace
  rcases List.eq_nil_or_concat after with rfl | ⟨front, last, rfl⟩
  · have hsplit : trace ++ [op] =
        (before ++ .addComponent path t :: between) ++ [.addComponent path t'] := by
      rw [htrace, List.append_assoc, List.cons_append]
    obtain ⟨rfl, hlast⟩ := List.append_inj' hsplit rfl
    by_contra hremoved
    exact hop path t' (List.cons.inj hlast).1 ⟨before, between, t, rfl, hremoved⟩
  · have hsplit : trace ++ [op] =
        (before ++ .addComponent path t :: (between ++ .addComponent path t' :: front)) ++
          [last] := by
      rw [htrace]
      simp
    exact h before between front path t t' (List.append_inj' hsplit rfl).1

end Script

/-- The ids of a node are those that a trace of applied operations leads to. -/
structure Model.Tracks (m : Model) (node : String) (trace : Script) : Prop where
  hasNode : m.HasNode node
  nodup : (m.ids node).Nodup
  apart : trace.AddsApart
  leaves : ∀ path, trace.Leaves path → path.node = node ∧ path.id ∈ m.ids node

namespace Model.Tracks

variable {m : Model} {node : String} {trace : Script}

/-- An operation keeps the ids tracked when what it creates is on the node and new. -/
theorem applyOp (h : m.Tracks node trace) {op : Op}
    (hlocal : ∀ path ∈ Script.addedComponents [op], path.node = node)
    (hnew : (m.ids node ++ (Script.addedComponents [op]).map (·.id)).Nodup) :
    (m.applyOp op).Tracks node (trace ++ [op]) where
  hasNode := (hasNode_applyOp_iff op).2 h.hasNode
  nodup := by
    rw [ids_applyOp h.hasNode]
    exact hnew.sublist (op.idsAfter_sublist node (m.ids node))
  apart := by
    refine h.apart.concat fun path t heq hleaves => ?_
    subst heq
    have hfree := (List.nodup_append.1 hnew).2.2
    exact hfree path.id (h.leaves path hleaves).2 path.id List.mem_cons_self rfl
  leaves := by
    intro path hleaves
    rw [ids_applyOp h.hasNode]
    rcases Script.leaves_concat hleaves with ⟨t, rfl⟩ | ⟨hbefore, hkept⟩
    · have hnode := hlocal path List.mem_cons_self
      rw [Op.idsAfter, if_pos hnode]
      exact ⟨hnode, List.mem_append_right _ List.mem_cons_self⟩
    · obtain ⟨hnode, hmem⟩ := h.leaves path hbefore
      exact ⟨hnode, hnode ▸ Op.mem_idsAfter (hnode ▸ hmem) hkept⟩

theorem applyScript (h : m.Tracks node trace) {script : Script}
    (hlocal : ∀ path ∈ script.addedComponents, path.node = node)
    (hnew : (m.ids node ++ script.addedComponents.map (·.id)).Nodup) :
    (m.applyScript script).Tracks node (trace ++ script) := by
  induction script generalizing m trace with
  | nil =>
    rw [List.append_nil]
    exact h
  | cons op script ih =>
    rw [Script.addedComponents_cons] at hlocal hnew
    rw [List.map_append, ← List.append_assoc] at hnew
    -- The ids after the first operation are among those of the node and the new ones.
    have hrest : ((m.applyOp op).ids node ++
        (Script.addedComponents script).map (·.id)).Nodup := by
      rw [ids_applyOp h.hasNode]
      exact hnew.sublist ((op.idsAfter_sublist node (m.ids node)).append_right _)
    have hfirst := h.applyOp (fun path hpath => hlocal path (List.mem_append_left _ hpath))
      (hnew.sublist (List.sublist_append_left _ _))
    have hnext := ih hfirst
      (fun path hpath => hlocal path (List.mem_append_right _ hpath)) hrest
    rwa [List.append_assoc, List.singleton_append] at hnext

end Model.Tracks

end Wiring
