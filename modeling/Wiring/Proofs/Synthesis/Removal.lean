import Wiring.Proofs.Model.Removed
import Wiring.Proofs.Synthesis.Scripts

/-!
# The removal of all instances of some types

Types can be asked for under several names, and several of them can be the type of one
instance.  The script still removes each instance once, and it removes just the instances
of the types, `perm_stopByTypeScript`.  Where no two instances of the node have one id, it
leaves all others, `applyScript_stopByTypeScript`.
-/

namespace Wiring.Synthesis

/-! ## First occurrences -/

section firsts

variable {α : Type} [DecidableEq α]

theorem mem_firsts_iff {seen l : List α} {a : α} : a ∈ firsts seen l ↔ a ∈ l ∧ a ∉ seen := by
  induction l generalizing seen with
  | nil => simp [firsts]
  | cons b l ih =>
    rw [firsts]
    split
    · rename_i hseen
      have hb : b ∈ seen := by simpa using hseen
      rw [ih, List.mem_cons]
      constructor
      · exact fun h => ⟨Or.inr h.1, h.2⟩
      · rintro ⟨rfl | ha, hnew⟩
        · exact absurd hb hnew
        · exact ⟨ha, hnew⟩
    · rename_i hnew
      have hb : b ∉ seen := by simpa using hnew
      rw [List.mem_cons, ih, List.mem_cons, List.mem_cons, not_or]
      by_cases hab : a = b
      · subst hab
        exact iff_of_true (Or.inl rfl) ⟨Or.inl rfl, hb⟩
      · simp [hab]

theorem nodup_firsts (seen l : List α) : (firsts seen l).Nodup := by
  induction l generalizing seen with
  | nil => exact List.nodup_nil
  | cons a l ih =>
    rw [firsts]
    split
    · exact ih seen
    · exact List.nodup_cons.2 ⟨fun h => (mem_firsts_iff.1 h).2 List.mem_cons_self, ih _⟩

end firsts

/-! ## What is removed -/

variable {s : Synthesis} {types : List String}

/-- The addresses of the instances of some types on the node, each once. -/
def stoppedPaths (s : Synthesis) (types : List String) : List ComponentPath :=
  firsts [] (types.flatMap fun typeName => s.model.runningOn typeName s.node)

theorem stopByTypeScript_eq (s : Synthesis) (types : List String) :
    s.stopByTypeScript types = (s.stoppedPaths types).map .remove := rfl

theorem mem_stoppedPaths_iff {path : ComponentPath} :
    path ∈ s.stoppedPaths types ↔
      ∃ c ∈ s.model.instancesOf types s.node, ⟨s.node, c.name⟩ = path := by
  simp only [stoppedPaths, mem_firsts_iff, List.not_mem_nil, not_false_eq_true, and_true,
    List.mem_flatMap, Model.runningOn, List.mem_map, List.mem_filter, Model.instancesOf,
    Instance.isOfSome, List.any_eq_true]
  constructor
  · rintro ⟨typeName, htype, c, ⟨hc, hsame⟩, hpath⟩
    exact ⟨c, ⟨hc, typeName, htype, hsame⟩, hpath⟩
  · rintro ⟨c, ⟨hc, typeName, htype, hsame⟩, hpath⟩
    exact ⟨typeName, htype, c, ⟨hc, hsame⟩, hpath⟩

theorem node_of_mem_stoppedPaths {path : ComponentPath} (h : path ∈ s.stoppedPaths types) :
    path.node = s.node := by
  obtain ⟨c, -, rfl⟩ := mem_stoppedPaths_iff.1 h
  rfl

/-- Nothing is removed exactly when there is no instance of the types. -/
theorem stopByTypeScript_eq_nil_iff :
    s.stopByTypeScript types = [] ↔ s.model.instancesOf types s.node = [] := by
  rw [stopByTypeScript_eq, List.map_eq_nil_iff, List.eq_nil_iff_forall_not_mem,
    List.eq_nil_iff_forall_not_mem]
  constructor
  · intro hnone c hc
    exact hnone _ (mem_stoppedPaths_iff.2 ⟨c, hc, rfl⟩)
  · intro hnone path hpath
    obtain ⟨c, hc, -⟩ := mem_stoppedPaths_iff.1 hpath
    exact hnone c hc

theorem nodup_stopByTypeScript (s : Synthesis) (types : List String) :
    (s.stopByTypeScript types).Nodup := by
  rw [stopByTypeScript_eq]
  exact (nodup_firsts [] _).map fun _ _ heq => Op.remove.inj heq

/-- Where ids are distinct, an instance of the node is told by its id. -/
theorem eq_of_name_eq (hids : (s.model.ids s.node).Nodup) {c c' : Instance}
    (hc : c ∈ s.model.components s.node) (hc' : c' ∈ s.model.components s.node)
    (hname : c.name = c'.name) : c = c' :=
  List.inj_on_of_nodup_map hids hc hc' hname

/-- One removal for each instance of the types, and no other. -/
theorem perm_stopByTypeScript (hids : (s.model.ids s.node).Nodup) (types : List String) :
    (s.stopByTypeScript types).Perm
      ((s.model.instancesOf types s.node).map fun c => .remove ⟨s.node, c.name⟩) := by
  have hnames : ((s.model.instancesOf types s.node).map (·.name)).Nodup :=
    hids.sublist (List.filter_sublist.map _)
  have hpaths : ((s.model.instancesOf types s.node).map fun c =>
      (⟨s.node, c.name⟩ : ComponentPath)).Nodup := by
    have hmap := hnames.map fun a b (heq : ComponentPath.mk s.node a = ⟨s.node, b⟩) =>
      congrArg ComponentPath.id heq
    rwa [List.map_map] at hmap
  have hperm : (s.stoppedPaths types).Perm
      ((s.model.instancesOf types s.node).map fun c => ⟨s.node, c.name⟩) := by
    refine (List.perm_ext_iff_of_nodup (nodup_firsts [] _) hpaths).2 fun path => ?_
    rw [List.mem_map]
    exact mem_stoppedPaths_iff
  have hremovals := hperm.map Op.remove
  rwa [List.map_map] at hremovals

/-- The script leaves just the instances of other types. -/
theorem applyScript_stopByTypeScript (hids : (s.model.ids s.node).Nodup)
    (types : List String) :
    s.model.applyScript (s.stopByTypeScript types) = s.model.withoutTypes types s.node := by
  rw [stopByTypeScript_eq, Model.applyScript_removals _ fun path => node_of_mem_stoppedPaths]
  refine Model.updateNode_congr fun n hn => Node.keeping_congr fun c hc => ?_
  rw [← Model.components_of_findNode hn] at hc
  refine congrArg not (Bool.eq_iff_iff.2 ?_)
  rw [List.contains_iff_mem, mem_stoppedPaths_iff]
  constructor
  · rintro ⟨c', hc', hpath⟩
    obtain ⟨hmem, htype⟩ := List.mem_filter.1 hc'
    have hname : c'.name = c.name := congrArg ComponentPath.id hpath
    exact eq_of_name_eq hids hmem hc hname ▸ htype
  · intro htype
    exact ⟨c, List.mem_filter.2 ⟨hc, htype⟩, rfl⟩

end Wiring.Synthesis
