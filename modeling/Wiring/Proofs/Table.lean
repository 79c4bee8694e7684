import Wiring.Table

/-!
# The entries of a table

What the operations of a table do to its entries, apart from their order: a value under a
new key adds an entry, `perm_insertEntry`, and values appended to a list under a key join
the values of all lists, `perm_flatMap_append`.  Looking up the key of an entry finds the
entry, `get?_of_mem`, and which entries there are settles their order, `eq_of_perm`.  Put
into an empty table one after the other, the entries of a table make it again,
`ofList_entries`.
-/

namespace Wiring.Table

variable {α : Type}

theorem findEntry_eq_none_iff {key : String} {l : List (String × α)} :
    findEntry key l = none ↔ ∀ entry ∈ l, entry.1 ≠ key := by
  induction l with
  | nil => simp [findEntry]
  | cons first rest ih =>
    rw [findEntry, List.forall_mem_cons]
    split
    · rename_i heq
      exact iff_of_false (Option.some_ne_none _) fun h => h.1 heq.symm
    · rename_i hne
      rw [ih, and_iff_right (Ne.symm hne)]

theorem contains_eq_false_iff {t : Table α} {key : String} :
    t.contains key = false ↔ ∀ entry ∈ t.entries, entry.1 ≠ key := by
  rw [contains, Option.isSome_eq_false_iff, Option.isNone_iff_eq_none]
  exact findEntry_eq_none_iff

theorem mem_keys_iff {t : Table α} {key : String} : key ∈ t.keys ↔ t.contains key = true := by
  rw [← Bool.not_eq_false, contains_eq_false_iff, keys, List.mem_map]
  simp only [Classical.not_forall, Classical.not_not, exists_prop]

theorem contains_insert {t : Table α} {key other : String} {value : α} :
    (t.insert key value).contains other = (decide (other = key) || t.contains other) := by
  rw [contains, contains, get?_insert]
  split
  · rename_i heq
    simp [heq]
  · rename_i hne
    simp [hne]

theorem mem_keys_insert {t : Table α} {key other : String} {value : α} :
    other ∈ (t.insert key value).keys ↔ other = key ∨ other ∈ t.keys := by
  rw [mem_keys_iff, mem_keys_iff, contains_insert, Bool.or_eq_true, decide_eq_true_eq]

theorem findEntry_of_mem {l : List (String × α)} (hascending : l.Pairwise fun a b => a.1 < b.1)
    {entry : String × α} (hmem : entry ∈ l) : findEntry entry.1 l = some entry.2 := by
  induction l with
  | nil => exact absurd hmem List.not_mem_nil
  | cons first rest ih =>
    rw [findEntry]
    rcases List.mem_cons.1 hmem with rfl | hmem
    · exact if_pos rfl
    · -- The keys ascend, so the first entry has another key.
      have hlt : first.1 < entry.1 := List.rel_of_pairwise_cons hascending hmem
      have hne : entry.1 ≠ first.1 := fun heq => String.lt_irrefl _ (heq ▸ hlt)
      rw [if_neg hne]
      exact ih hascending.of_cons hmem

/-- The same entries, both times ascending, are in the same places. -/
theorem eq_of_perm {l l' : List (String × α)} (hascending : l.Pairwise fun a b => a.1 < b.1)
    (hascending' : l'.Pairwise fun a b => a.1 < b.1) (hperm : l.Perm l') : l = l' := by
  refine List.Perm.eq_of_pairwise (fun a b _ _ hlt hgt => ?_) hascending hascending' hperm
  exact absurd (String.lt_trans hlt hgt) (String.lt_irrefl _)

/-- Each key stands once, so looking it up finds its entry. -/
theorem get?_of_mem {t : Table α} {entry : String × α} (hmem : entry ∈ t.entries) :
    t.get? entry.1 = some entry.2 :=
  findEntry_of_mem t.ascending hmem

theorem mem_of_findEntry {key : String} {value : α} {l : List (String × α)}
    (h : findEntry key l = some value) : (key, value) ∈ l := by
  induction l with
  | nil => simp [findEntry] at h
  | cons first rest ih =>
    rw [findEntry] at h
    split at h
    · rename_i heq
      rw [← Option.some.inj h, heq]
      exact List.mem_cons_self
    · exact List.mem_cons_of_mem _ (ih h)

theorem get?_eq_some_iff {t : Table α} {key : String} {value : α} :
    t.get? key = some value ↔ (key, value) ∈ t.entries :=
  ⟨mem_of_findEntry, fun hmem => get?_of_mem hmem⟩

theorem length_keys (t : Table α) : t.keys.length = t.entries.length := List.length_map ..

theorem nodup_keys (t : Table α) : (t.entries.map (·.1)).Nodup := by
  refine List.pairwise_map.2 (t.ascending.imp fun hlt heq => ?_)
  exact String.lt_irrefl _ (heq ▸ hlt)

theorem perm_insertEntry {key : String} {l : List (String × α)}
    (hnew : findEntry key l = none) (value : α) :
    (insertEntry key value l).Perm ((key, value) :: l) := by
  induction l with
  | nil => exact List.Perm.refl _
  | cons first rest ih =>
    rw [findEntry] at hnew
    split at hnew
    · simp at hnew
    · rename_i hne
      rw [insertEntry, if_neg hne]
      split
      · exact List.Perm.refl _
      · exact ((ih hnew).cons first).trans (List.Perm.swap _ _ _)

theorem findEntry_eq_none_of_lt {key : String} {first : String × α} {rest : List (String × α)}
    (hascending : (first :: rest).Pairwise fun a b => a.1 < b.1) (hlt : key < first.1) :
    findEntry key (first :: rest) = none := by
  refine findEntry_eq_none_iff.2 fun entry hentry heq => ?_
  rcases List.mem_cons.1 hentry with rfl | hentry
  · exact String.lt_irrefl _ (heq ▸ hlt)
  · have hfirst : first.1 < entry.1 := List.rel_of_pairwise_cons hascending hentry
    exact String.lt_irrefl _ (heq ▸ String.lt_trans hlt hfirst)

theorem perm_flatMap_insertEntry {β : Type} (f : String → α → β) (key : String)
    (values : List α) {l : List (String × List α)}
    (hascending : l.Pairwise fun a b => a.1 < b.1) :
    ((insertEntry key ((findEntry key l).getD [] ++ values) l).flatMap
        fun entry => entry.2.map (f entry.1)).Perm
      ((l.flatMap fun entry => entry.2.map (f entry.1)) ++ values.map (f key)) := by
  induction l with
  | nil => simp [findEntry, insertEntry]
  | cons first rest ih =>
    rw [insertEntry]
    split
    · rename_i hlt
      rw [findEntry_eq_none_of_lt hascending hlt, Option.getD_none, List.nil_append,
        List.flatMap_cons]
      exact List.perm_append_comm
    · split
      · rename_i heq
        rw [findEntry, if_pos heq, Option.getD_some, List.flatMap_cons, List.flatMap_cons,
          List.map_append, ← heq, List.append_assoc, List.append_assoc]
        exact List.perm_append_comm.append_left _
      · rename_i hne
        rw [findEntry, if_neg hne, List.flatMap_cons, List.flatMap_cons, List.append_assoc]
        exact (ih hascending.of_cons).append_left _

/-- Appending values to the list under a key adds them to the values of all lists. -/
theorem perm_flatMap_append {β : Type} (f : String → α → β) (t : Table (List α)) (key : String)
    (values : List α) :
    ((t.append key values).entries.flatMap fun entry => entry.2.map (f entry.1)).Perm
      ((t.entries.flatMap fun entry => entry.2.map (f entry.1)) ++ values.map (f key)) :=
  perm_flatMap_insertEntry f key values t.ascending

/-! ## The table of its own entries -/

theorem insertEntry_of_lt {key : String} (value : α) {l : List (String × α)}
    (h : ∀ entry ∈ l, entry.1 < key) : insertEntry key value l = l ++ [(key, value)] := by
  induction l with
  | nil => rfl
  | cons first rest ih =>
    have hlt : first.1 < key := h first List.mem_cons_self
    have hne : key ≠ first.1 := fun heq => String.lt_irrefl _ (heq ▸ hlt)
    rw [insertEntry, if_neg (String.lt_asymm hlt), if_neg hne,
      ih fun entry hentry => h entry (List.mem_cons_of_mem _ hentry), List.cons_append]

/-- Entries that come after those of a table are added at its end. -/
theorem entries_foldl_insert {l : List (String × α)} {t : Table α}
    (h : (t.entries ++ l).Pairwise fun a b => a.1 < b.1) :
    (l.foldl (fun t entry => t.insert entry.1 entry.2) t).entries = t.entries ++ l := by
  induction l generalizing t with
  | nil => exact (List.append_nil _).symm
  | cons first rest ih =>
    have hlt : ∀ entry ∈ t.entries, entry.1 < first.1 := fun entry hentry =>
      (List.pairwise_append.1 h).2.2 entry hentry first List.mem_cons_self
    have hinsert : (t.insert first.1 first.2).entries = t.entries ++ [first] :=
      insertEntry_of_lt first.2 hlt
    have hassoc : t.entries ++ first :: rest = t.entries ++ [first] ++ rest := by simp
    rw [List.foldl_cons, ih (by rw [hinsert, ← hassoc]; exact h), hinsert, hassoc]

/-- A table is the one of its entries. -/
theorem ofList_entries (t : Table α) : ofList t.entries = t :=
  ext (entries_foldl_insert (t := empty) t.ascending)

end Wiring.Table
