/-!
# Tables with text keys

A finite map from texts to values that is listed in ascending order of its
keys.  The order is that of the code points, the one in which attributes are
set, ports are bound and documents are written, so it belongs to the type: the
entries are strictly ascending by a proof field, and equal maps are equal
tables.

Each operation has one equation through `get?` and keeps the order by
construction.
-/

namespace Wiring

/-- Entries in strictly ascending order of their keys. -/
structure Table (α : Type) where
  /-- The entries, listed by key. -/
  entries : List (String × α)
  /-- Each key stands once, and the keys ascend. -/
  ascending : entries.Pairwise fun a b => a.1 < b.1

namespace Table

variable {α : Type}

/-- The table without entries. -/
def empty : Table α := ⟨[], List.Pairwise.nil⟩

instance : EmptyCollection (Table α) := ⟨empty⟩
instance : Inhabited (Table α) := ⟨empty⟩

theorem ext {s t : Table α} (h : s.entries = t.entries) : s = t := by
  cases s; cases t; simp_all

instance [DecidableEq α] : DecidableEq (Table α) := fun s t =>
  if h : s.entries = t.entries then isTrue (ext h)
  else isFalse fun heq => h (congrArg entries heq)

instance [Repr α] : Repr (Table α) := ⟨fun t n => reprPrec t.entries n⟩

/-- The keys, ascending. -/
def keys (t : Table α) : List String := t.entries.map (·.1)

/-- The first value under a key among entries. -/
def findEntry (key : String) : List (String × α) → Option α
  | [] => none
  | entry :: rest => if key = entry.1 then some entry.2 else findEntry key rest

/-- The value under a key. -/
def get? (t : Table α) (key : String) : Option α := findEntry key t.entries

/-- Whether a key has a value. -/
def contains (t : Table α) (key : String) : Bool := (t.get? key).isSome

/-- Put a value under a key into ascending entries, in place of the old one. -/
def insertEntry (key : String) (value : α) : List (String × α) → List (String × α)
  | [] => [(key, value)]
  | entry :: rest =>
    if key < entry.1 then (key, value) :: entry :: rest
    else if key = entry.1 then (key, value) :: rest
    else entry :: insertEntry key value rest

theorem mem_insertEntry {key : String} {value : α} {entry : String × α}
    {l : List (String × α)} (h : entry ∈ insertEntry key value l) :
    entry = (key, value) ∨ entry ∈ l := by
  induction l with
  | nil => simpa [insertEntry] using h
  | cons first rest ih =>
    rw [insertEntry] at h
    split at h
    · simpa using h
    · split at h
      · rcases List.mem_cons.1 h with h | h
        · exact Or.inl h
        · exact Or.inr (List.mem_cons_of_mem _ h)
      · rcases List.mem_cons.1 h with h | h
        · exact Or.inr (by simp [h])
        · exact (ih h).imp id (List.mem_cons_of_mem _)

theorem ascending_insertEntry {key : String} {value : α} {l : List (String × α)}
    (h : l.Pairwise fun a b => a.1 < b.1) :
    (insertEntry key value l).Pairwise fun a b => a.1 < b.1 := by
  induction l with
  | nil => simp [insertEntry]
  | cons first rest ih =>
    have hfirst : ∀ entry ∈ rest, first.1 < entry.1 := fun _ => List.rel_of_pairwise_cons h
    rw [insertEntry]
    split
    · rename_i hlt
      refine List.Pairwise.cons (fun entry hentry => ?_) h
      rcases List.mem_cons.1 hentry with rfl | hentry
      · exact hlt
      · exact String.lt_trans hlt (hfirst entry hentry)
    · split
      · rename_i heq
        exact List.Pairwise.cons (fun entry hentry => heq ▸ hfirst entry hentry) h.of_cons
      · rename_i hlt hne
        refine List.Pairwise.cons (fun entry hentry => ?_) (ih h.of_cons)
        rcases mem_insertEntry hentry with rfl | hentry
        · apply Classical.byContradiction
          intro hle
          exact hne (String.le_antisymm (String.not_lt.1 hle) (String.not_lt.1 hlt))
        · exact hfirst entry hentry

/-- Put a value under a key, in place of the old one. -/
def insert (t : Table α) (key : String) (value : α) : Table α :=
  ⟨insertEntry key value t.entries, ascending_insertEntry t.ascending⟩

/-- The table of a list of entries; of several under one key the last stays. -/
def ofList (l : List (String × α)) : Table α :=
  l.foldl (fun t entry => t.insert entry.1 entry.2) empty

@[simp] theorem get?_empty (key : String) : (empty : Table α).get? key = none := rfl

theorem findEntry_insertEntry (key other : String) (value : α) (l : List (String × α)) :
    findEntry other (insertEntry key value l) =
      if other = key then some value else findEntry other l := by
  induction l with
  | nil => simp [insertEntry, findEntry]
  | cons first rest ih =>
    rw [insertEntry]
    split
    · simp [findEntry]
    · split
      · rename_i heq
        by_cases h : other = key
        · simp [findEntry, h]
        · simp [findEntry, h, heq ▸ h]
      · rename_i hne
        by_cases h : other = first.1
        · simp [findEntry, h, Ne.symm hne]
        · simp [findEntry, h, ih]

/-- After an insertion the key has the new value and the others keep theirs. -/
theorem get?_insert (t : Table α) (key other : String) (value : α) :
    (t.insert key value).get? other = if other = key then some value else t.get? other :=
  findEntry_insertEntry key other value t.entries

end Table

/-! ## Tables of lists -/

namespace Table

/-- Add values at the end of the list under a key; the key gets a list even
when there is nothing to add. -/
def append {α : Type} (t : Table (List α)) (key : String) (values : List α) :
    Table (List α) :=
  t.insert key ((t.get? key).getD [] ++ values)

theorem get?_append {α : Type} (t : Table (List α)) (key other : String)
    (values : List α) :
    (t.append key values).get? other =
      if other = key then some ((t.get? key).getD [] ++ values) else t.get? other :=
  get?_insert t key other _

end Table

end Wiring
