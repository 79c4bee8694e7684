import Wiring.Component.Document
import Wiring.Proofs.Json.Decoding
import Wiring.Settings.Document

/-!
# Requests and settings restored from their documents

The attributes and the port bindings of a requested component are tables, so their documents
are objects in the order of the keys.  Neither a component nor settings have containers inside
the lists of a table, so their documents are never too deep.
-/

namespace Wiring

open Json (Decoder Fields Restores depth_array_le depth_record_le restores_record restores_text
  text)

theorem restores_attributes (t : Table String) : Restores (.table .text) (encodeAttributes t) t :=
  Restores.table fun entry _ => restores_text entry.2

theorem restores_portBindings (t : PortBindings) : Restores (.table (.list .text)) t.encode t :=
  Restores.table fun _ _ => Restores.list fun token _ => restores_text token

/-- A requested component is restored from its document. -/
theorem restores_component (c : Component) : Restores Component.decode c.encode c :=
  restores_record rfl (by decide) fun room h => by
    have hattributes := restores_attributes c.attributes room
      (h ("attributes", encodeAttributes c.attributes) (by simp))
    have hbindings := restores_portBindings c.portBindings room
      (h ("port_bindings", c.portBindings.encode) (by simp))
    simp [Fields.getD, List.lookup_cons, Decoder.text, text, hattributes, hbindings]

theorem depth_encodeAttributes_le (t : Table String) : (encodeAttributes t).depth ≤ 1 :=
  depth_record_le fun member hmember => by
    obtain ⟨entry, -, rfl⟩ := List.mem_map.1 hmember
    exact Nat.le_refl 0

theorem depth_portBindings_le (t : PortBindings) : t.encode.depth ≤ 2 :=
  depth_record_le fun member hmember => by
    obtain ⟨entry, -, rfl⟩ := List.mem_map.1 hmember
    refine depth_array_le fun value hvalue => ?_
    obtain ⟨token, -, rfl⟩ := List.mem_map.1 hvalue
    exact Nat.le_refl 0

theorem depth_component_le (c : Component) : c.encode.depth ≤ 3 := by
  have hattributes := depth_encodeAttributes_le c.attributes
  have hbindings := depth_portBindings_le c.portBindings
  refine depth_record_le ?_
  simpa [Json.depth_text] using And.intro (Nat.le_succ_of_le hattributes) hbindings

/-- Settings are restored from their document. -/
theorem restores_settings (s : Settings) : Restores Settings.decode s.encode s :=
  restores_record rfl (by decide) fun room _ => by
    simp [Fields.getD, List.lookup_cons, Decoder.text, text]

theorem depth_settings_le (s : Settings) : s.encode.depth ≤ 1 :=
  depth_record_le (by simp [Json.depth_text])

end Wiring
