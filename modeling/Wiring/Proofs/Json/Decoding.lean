import Mathlib.Data.List.Nodup
import Wiring.Json.Decode
import Wiring.Proofs.Table

/-!
# Decoding encoded data

A decoder restores a datum from a value if it reads the datum wherever there is room for the
containers of the value, `Restores`.  The decoders of texts, lists, tables and records
restore what is made of data that their parts restore.
-/

namespace Wiring.Json

/-- The members of a record have their names as keys. -/
theorem record_eq (members : List (String × Json)) :
    record members = .object (members.map fun member => (some member.1, member.2)) := rfl

/-! ## Depth -/

mutual

/-- The number of levels of containers of a value. -/
def depth : Json → Nat
  | .null | .bool _ | .number _ | .string _ => 0
  | .array items => depthOfItems items + 1
  | .object members => depthOfMembers members + 1

/-- The greatest depth of an item. -/
def depthOfItems : List Json → Nat
  | [] => 0
  | value :: rest => max (depth value) (depthOfItems rest)

/-- The greatest depth of a member. -/
def depthOfMembers : List (Option String × Json) → Nat
  | [] => 0
  | (_, value) :: rest => max (depth value) (depthOfMembers rest)

end

theorem depthOfItems_le_iff {items : List Json} {room : Nat} :
    depthOfItems items ≤ room ↔ ∀ value ∈ items, value.depth ≤ room := by
  induction items with
  | nil => simp [depthOfItems]
  | cons value rest ih => rw [depthOfItems, Nat.max_le, ih, List.forall_mem_cons]

theorem depthOfMembers_le_iff {members : List (Option String × Json)} {room : Nat} :
    depthOfMembers members ≤ room ↔ ∀ member ∈ members, member.2.depth ≤ room := by
  induction members with
  | nil => simp [depthOfMembers]
  | cons member rest ih => rw [depthOfMembers, Nat.max_le, ih, List.forall_mem_cons]

/-- A list has room where its items have one level less. -/
theorem exists_room_of_array {items : List Json} {room : Nat}
    (h : (Json.array items).depth ≤ room) :
    ∃ inner, room = inner + 1 ∧ ∀ value ∈ items, value.depth ≤ inner := by
  rw [depth] at h
  exact ⟨room - 1, by omega, depthOfItems_le_iff.1 (by omega)⟩

/-- A record has room where its fields have one level less. -/
theorem exists_room_of_record {members : List (String × Json)} {room : Nat}
    (h : (record members).depth ≤ room) :
    ∃ inner, room = inner + 1 ∧ ∀ member ∈ members, member.2.depth ≤ inner := by
  rw [record_eq, depth] at h
  refine ⟨room - 1, by omega, fun member hmember => ?_⟩
  exact depthOfMembers_le_iff.1 (Nat.le_sub_of_add_le h) (some member.1, member.2)
    (List.mem_map.2 ⟨member, hmember, rfl⟩)

theorem depth_array_le {items : List Json} {room : Nat}
    (h : ∀ value ∈ items, value.depth ≤ room) : (Json.array items).depth ≤ room + 1 := by
  rw [depth]
  exact Nat.succ_le_succ (depthOfItems_le_iff.2 h)

theorem depth_record_le {members : List (String × Json)} {room : Nat}
    (h : ∀ member ∈ members, member.2.depth ≤ room) : (record members).depth ≤ room + 1 := by
  rw [record_eq, depth]
  refine Nat.succ_le_succ (depthOfMembers_le_iff.2 fun member hmember => ?_)
  obtain ⟨given, hgiven, rfl⟩ := List.mem_map.1 hmember
  exact h given hgiven

theorem depth_text (s : String) : (text s).depth = 0 := rfl

theorem depth_textOrNull (s? : Option String) : (textOrNull s?).depth = 0 := by
  cases s? <;> rfl

/-! ## What a decoder restores -/

variable {α β : Type}

/-- Whether a decoder reads a datum from a value wherever there is room for it. -/
def Restores (decode : Decoder α) (value : Json) (a : α) : Prop :=
  ∀ room, value.depth ≤ room → decode room value = some a

theorem restores_text (s : String) : Restores Decoder.text (text s) s := fun _ _ => rfl

theorem restores_textOrNull (s? : Option String) :
    Restores (Decoder.nullable .text) (textOrNull s?) s? := fun _ _ => by
  cases s? <;> rfl

theorem all_map {read : β → Option α} {f : α → β} {as : List α}
    (h : ∀ a ∈ as, read (f a) = some a) : Decoder.all read (as.map f) = some as := by
  induction as with
  | nil => rfl
  | cons a as ih =>
    rw [List.map_cons, Decoder.all, h a List.mem_cons_self,
      ih fun a ha => h a (List.mem_cons_of_mem _ ha)]

theorem all_some (as : List α) : Decoder.all some as = some as := by
  have h := all_map fun (a : α) (_ : a ∈ as) => (rfl : some (id a) = some a)
  rwa [List.map_id] at h

theorem Restores.list {decode : Decoder α} {encode : α → Json} {as : List α}
    (h : ∀ a ∈ as, Restores decode (encode a) a) :
    Restores (.list decode) (.array (as.map encode)) as := by
  intro room hroom
  obtain ⟨inner, rfl, hinner⟩ := exists_room_of_array hroom
  exact all_map fun a ha => h a ha inner (hinner _ (List.mem_map.2 ⟨a, ha, rfl⟩))

theorem namedMembers_map (members : List (String × Json)) :
    Decoder.namedMembers (members.map fun member => (some member.1, member.2)) = some members :=
  all_map fun _ _ => rfl

theorem Restores.table {decode : Decoder α} {encode : α → Json} {t : Table α}
    (h : ∀ entry ∈ t.entries, Restores decode (encode entry.2) entry.2) :
    Restores (.table decode) (ofTable encode t) t := by
  intro room hroom
  obtain ⟨inner, rfl, hinner⟩ := exists_room_of_record hroom
  have hall : Decoder.all (fun member => (decode inner member.2).map fun a => (member.1, a))
      (t.entries.map fun entry => (entry.1, encode entry.2)) = some t.entries :=
    all_map fun entry hentry => by
      dsimp only
      rw [h entry hentry inner (hinner _ (List.mem_map.2 ⟨entry, hentry, rfl⟩)), Option.map_some]
  rw [ofTable, record_eq, Decoder.table, namedMembers_map]
  show (Decoder.all (fun member => (decode inner member.2).map fun a => (member.1, a))
    (t.entries.map fun entry => (entry.1, encode entry.2))).map Table.ofList = some t
  rw [hall, Option.map_some, Table.ofList_entries]

/-! ## Records -/

/-- Of the members of a record those with the names of fields are given. -/
theorem fields_record {names : List String} {least room : Nat} {members : List (String × Json)}
    (hnodup : (members.map (·.1)).Nodup) :
    fields names least (room + 1) (record members) =
      some ⟨room, members.filter fun member => names.contains member.1⟩ := by
  have hgiven : ((members.filter fun member => names.contains member.1).map (·.1)).Nodup :=
    hnodup.sublist (List.filter_sublist.map _)
  rw [record_eq, fields, namedMembers_map]
  exact if_pos hgiven

/-- A record is restored by a decoder of its fields that restores it from them. -/
theorem restores_record {names : List String} {least : Nat} {members : List (String × Json)}
    {build : Fields → Option α} {a : α} (hnames : members.map (·.1) = names)
    (hnodup : names.Nodup)
    (hbuild : ∀ room, (∀ member ∈ members, member.2.depth ≤ room) →
      build ⟨room, members⟩ = some a) :
    Restores (fun room value => fields names least room value >>= build) (record members) a := by
  intro room hroom
  obtain ⟨inner, rfl, hinner⟩ := exists_room_of_record hroom
  have hgiven : (members.filter fun member => names.contains member.1) = members :=
    List.filter_eq_self.2 fun member hmember =>
      List.contains_iff_mem.2 (hnames ▸ List.mem_map.2 ⟨member, hmember, rfl⟩)
  dsimp only
  rw [fields_record (hnames ▸ hnodup), hgiven]
  exact hbuild inner hinner

end Wiring.Json
