import Wiring.Model.Document
import Wiring.Proofs.Json.Decoding

/-!
# Models restored from their documents

Each part of a model is restored from its document where there is room for the containers of
the document.  A package needs two levels more than the packages in it, for its record and
for their list, so the proof for package trees goes by the room.
-/

namespace Wiring

open Json (Decoder Fields Restores exists_room_of_array exists_room_of_record
  restores_record text textOrNull restores_textOrNull)

theorem restores_instance (c : Instance) : Restores Instance.decode c.encode c :=
  restores_record rfl (by decide) fun room _ => by
    simp [Fields.get, List.lookup_cons, Decoder.text, text]

theorem restores_node (n : Node) : Restores Node.decode n.encode n :=
  restores_record rfl (by decide) fun room h => by
    have hcomponents := Restores.list (fun c _ => restores_instance c) room
      (h ("components", .array (n.components.map Instance.encode)) (by simp))
    simp [Fields.getD, List.lookup_cons, Decoder.text, text, hcomponents]

theorem restores_attribute (a : Attribute) : Restores Attribute.decode a.encode a :=
  restores_record rfl (by decide) fun room h => by
    have hdefault := restores_textOrNull a.default? room
      (h ("default_value", textOrNull a.default?) (by simp))
    simp [Fields.get, Fields.getD, List.lookup_cons, Decoder.text, text, hdefault]

theorem restores_typeDefinition (t : TypeDefinition) :
    Restores TypeDefinition.decode t.encode t :=
  restores_record rfl (by decide) fun room h => by
    have hversion := restores_textOrNull t.version? room
      (h ("version", textOrNull t.version?) (by simp))
    have hdictionary := Restores.list (fun a _ => restores_attribute a) room
      (h ("dictionary", .array (t.dictionary.map Attribute.encode)) (by simp))
    simp [Fields.getD, List.lookup_cons, Decoder.text, text, hversion, hdictionary]

theorem restores_hub (c : Hub) : Restores Hub.decode c.encode c :=
  restores_record rfl (by decide) fun room _ => by
    simp [Fields.get, List.lookup_cons, Decoder.text, text]

/-! ## Packages -/

theorem Package.encodeAll_eq_map (ps : List Package) : encodeAll ps = ps.map encode := by
  induction ps with
  | nil => rfl
  | cons p ps ih => rw [encodeAll, ih, List.map_cons]

theorem restores_package (p : Package) : Restores Package.decode p.encode p := by
  intro room
  induction room using Nat.strongRecOn generalizing p with
  | ind room ih =>
    intro hroom
    obtain ⟨name, packages, types⟩ := p
    rw [Package.encode, Package.encodeAll_eq_map] at hroom ⊢
    obtain ⟨inner, rfl, hinner⟩ := exists_room_of_record hroom
    have htypes := Restores.list (fun t _ => restores_typeDefinition t) inner
      (hinner ("type_definitions", .array (types.map TypeDefinition.encode)) (by simp))
    obtain ⟨innermost, rfl, hinnermost⟩ := exists_room_of_array
      (hinner ("packages", .array (packages.map Package.encode)) (by simp))
    have hnested : Decoder.list (fun _ item => some item) (innermost + 1)
        (.array (packages.map Package.encode)) = some (packages.map Package.encode) :=
      Json.all_some _
    have hpackages : Decoder.all (fun item => Package.decode innermost item)
        (packages.map Package.encode) = some packages :=
      Json.all_map fun p hp => ih innermost (by omega) p
        (hinnermost _ (List.mem_map.2 ⟨p, hp, rfl⟩))
    have hnodup : ["name", "packages", "type_definitions"].Nodup := by decide
    rw [Package.decode, Json.fields_record (by exact hnodup)]
    simp [Fields.getD, List.lookup_cons, Decoder.text, text, htypes, hnested, hpackages]

theorem restores_model (m : Model) : Restores Model.decode m.encode m := by
  rw [Model.encode, Package.encodeAll_eq_map]
  refine restores_record rfl (by decide) fun room h => ?_
  have hnodes := Restores.list (fun n _ => restores_node n) room
    (h ("nodes", .array (m.nodes.map Node.encode)) (by simp))
  have hpackages := Restores.list (fun p _ => restores_package p) room
    (h ("packages", .array (m.packages.map Package.encode)) (by simp))
  have hhubs := Restores.list (fun c _ => restores_hub c) room
    (h ("hubs", .array (m.hubs.map Hub.encode)) (by simp))
  simp [Fields.getD, List.lookup_cons, hnodes, hpackages, hhubs]

end Wiring
