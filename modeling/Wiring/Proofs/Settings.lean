import Wiring.Settings
import Wiring.Proofs.Script.Reading

/-!
# Checked settings

Settings pass their check exactly when the node and the channel type can stand in script lines
and there is a prefix, `validate_eq_ok_iff`.
-/

namespace Wiring

namespace Settings

/-- A name that can stand in a script line. -/
structure IsUsable (name : String) : Prop where
  ne_empty : name ≠ ""
  unbroken : ∀ c ∈ name.toList, breaksLine c = false

theorem IsUsable.noDot {name : String} (h : IsUsable name) : '.' ∉ name.toList := by
  intro hdot
  have hbreaks := h.unbroken '.' hdot
  simp [breaksLine] at hbreaks

theorem checkName_eq_ok_iff {field name : String} :
    checkName field name = .ok () ↔ IsUsable name := by
  unfold checkName
  split
  · rename_i hempty
    exact ⟨fun h => by contradiction, fun h => absurd hempty h.ne_empty⟩
  split
  · rename_i hbreaks
    obtain ⟨c, hc, hbreaks⟩ := List.any_eq_true.1 hbreaks
    refine ⟨fun h => by contradiction, fun h => ?_⟩
    exact absurd hbreaks (by simp [h.unbroken c hc])
  · rename_i hne hunbroken
    exact ⟨fun _ => ⟨hne, by simpa using hunbroken⟩, fun _ => rfl⟩

theorem validate_eq_ok_iff {settings : Settings} :
    settings.validate = .ok () ↔
      IsUsable settings.nodeName ∧ IsUsable settings.channelType ∧
        settings.bindingPrefix ≠ "" := by
  unfold validate
  simp only [bind_eq_ok_iff]
  constructor
  · rintro ⟨_, hnode, _, htype, hset⟩
    refine ⟨checkName_eq_ok_iff.1 hnode, checkName_eq_ok_iff.1 htype, fun hempty => ?_⟩
    simp [hempty, throw, throwThe, MonadExceptOf.throw] at hset
  · rintro ⟨hnode, htype, hset⟩
    exact ⟨(), checkName_eq_ok_iff.2 hnode, (), checkName_eq_ok_iff.2 htype, if_neg hset⟩

end Settings

end Wiring
