import Mathlib.Data.List.Nodup
import Wiring.Linker.Request
import Wiring.Proofs.Table

/-!
# What the defaults of a type add

Resolving a component adds attributes under keys that it did not have and leaves all else
as it was, `exists_extends_resolve`.  So its binding specifications are those of the
request and those among the defaults, `Extends.perm_specs`, and its plain attributes apart
from the defaults are those of the request, `Extends.perm_plainAttributes`.
-/

namespace Wiring

/-- A resolution adds attributes to a component, and nothing else. -/
structure Component.Extends (c : Component) (r : Resolution) (added : List (String × String)) :
    Prop where
  id : r.component.id = c.id
  typeName : r.component.typeName = c.typeName
  portBindings : r.component.portBindings = c.portBindings
  entries : r.component.attributes.entries.Perm (c.attributes.entries ++ added)
  defaulted : r.defaulted = added.map (·.1)

namespace Component

variable {c : Component} {r : Resolution} {added : List (String × String)}

theorem Extends.addDefault (h : c.Extends r added) (declared : Attribute) :
    ∃ more, c.Extends (addDefault r declared) more := by
  unfold Component.addDefault
  split
  · exact ⟨added, h⟩
  · rename_i value _
    split
    · exact ⟨added, h⟩
    · rename_i hmissing
      -- The attribute has a name and no value yet.
      have hnew : r.component.attributes.contains declared.name = false := by
        apply Bool.eq_false_iff.2
        exact fun hthere => hmissing (by simp [hthere])
      have hfind := Table.findEntry_eq_none_iff.2 (Table.contains_eq_false_iff.1 hnew)
      have hinsert := (Table.perm_insertEntry hfind value).trans (h.entries.cons _)
      refine ⟨added ++ [(declared.name, value)], h.id, h.typeName, h.portBindings, ?_, ?_⟩
      · refine hinsert.trans ?_
        rw [← List.append_assoc]
        exact (List.perm_append_singleton _ _).symm
      · rw [List.map_append, ← h.defaulted]
        rfl

theorem Extends.foldl_addDefault (h : c.Extends r added) (declared : List Attribute) :
    ∃ more, c.Extends (declared.foldl Component.addDefault r) more := by
  induction declared generalizing r added with
  | nil => exact ⟨added, h⟩
  | cons a declared ih =>
    obtain ⟨more, hmore⟩ := h.addDefault a
    exact ih hmore

/-- What a component comes to by some declarations. -/
def withDefaults (c : Component) (declared : List Attribute) : Resolution :=
  declared.foldl Component.addDefault ⟨c, true, []⟩

theorem exists_extends_withDefaults (c : Component) (declared : List Attribute) :
    ∃ added, c.Extends (c.withDefaults declared) added := by
  have hnone : c.Extends ⟨c, true, []⟩ [] := ⟨rfl, rfl, rfl, by rw [List.append_nil], rfl⟩
  exact hnone.foldl_addDefault declared

/-- Resolving a component adds the defaults that are missing. -/
theorem exists_extends_resolve (c : Component) (m : Model) :
    ∃ added, c.Extends (c.resolve m) added := by
  unfold resolve
  split
  · exact ⟨[], rfl, rfl, rfl, by rw [List.append_nil], rfl⟩
  · rename_i declaration _
    exact c.exists_extends_withDefaults declaration.dictionary

namespace Extends

theorem validate (h : c.Extends r added) : r.component.validate = c.validate := by
  rw [Component.validate, Component.validate, h.id, h.typeName]

theorem path (h : c.Extends r added) (node : String) : r.component.path node = c.path node := by
  rw [Component.path, Component.path, h.id]

/-- What was added has another key than what was there. -/
theorem notMem_defaulted (h : c.Extends r added) {entry : String × String}
    (hentry : entry ∈ c.attributes.entries) : entry.1 ∉ r.defaulted := by
  have hkeys := (h.entries.map (·.1)).nodup_iff.1 r.component.attributes.nodup_keys
  rw [List.map_append] at hkeys
  rw [h.defaulted]
  intro hadded
  exact (List.nodup_append.1 hkeys).2.2 _ (List.mem_map_of_mem hentry) _ hadded rfl

theorem get?_of_mem (h : c.Extends r added) {entry : String × String} (hentry : entry ∈ added) :
    r.component.attributes.get? entry.1 = some entry.2 :=
  Table.get?_of_mem (h.entries.mem_iff.2 (List.mem_append_right _ hentry))

/-- The plain attributes that are not defaults are those of the request. -/
theorem perm_plainAttributes (h : c.Extends r added) (keyPrefix : String) :
    ((r.component.plainAttributes keyPrefix).filter fun entry =>
      !r.defaulted.contains entry.1).Perm (c.plainAttributes keyPrefix) := by
  have hplain := (h.entries.filter fun entry => !carries keyPrefix entry.1).filter
    fun entry => !r.defaulted.contains entry.1
  rw [List.filter_append, List.filter_append] at hplain
  have hkept : ((c.plainAttributes keyPrefix).filter fun entry =>
      !r.defaulted.contains entry.1) = c.plainAttributes keyPrefix := by
    refine List.filter_eq_self.2 fun entry hentry => ?_
    have hnew := h.notMem_defaulted (List.mem_filter.1 hentry).1
    simpa using hnew
  have hdropped : ((added.filter fun entry => !carries keyPrefix entry.1).filter
      fun entry => !r.defaulted.contains entry.1) = [] := by
    refine List.filter_eq_nil_iff.2 fun entry hentry => ?_
    have hadded := List.mem_map_of_mem (f := (·.1)) (List.mem_filter.1 hentry).1
    rw [← h.defaulted] at hadded
    simpa using hadded
  rw [hdropped, List.append_nil] at hplain
  exact hplain.trans (List.Perm.of_eq hkept)

/-- The binding specifications are those of the request and those among the defaults. -/
theorem perm_specs (h : c.Extends r added) (s : Synthesis) :
    (s.specs r.component).Perm
      (s.specs c ++ s.specsUnder r.component (s.defaultedBindingKeys r)) := by
  have hunder : s.specsUnder r.component (s.defaultedBindingKeys r) =
      (added.filter fun entry => carries s.settings.bindingPrefix entry.1).map (·.2) := by
    rw [Synthesis.specsUnder, Synthesis.defaultedBindingKeys, h.defaulted, List.filter_filter,
      List.filter_map, List.filterMap_map, ← List.filterMap_eq_map]
    simp only [Bool.and_self]
    refine List.filterMap_congr fun entry hentry => ?_
    exact h.get?_of_mem (List.mem_filter.1 hentry).1
  have hspecs := (h.entries.filter fun entry =>
    carries s.settings.bindingPrefix entry.1).map (·.2)
  rw [List.filter_append, List.map_append] at hspecs
  rw [hunder]
  exact hspecs

end Extends

end Component

end Wiring
