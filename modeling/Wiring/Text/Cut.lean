/-!
# Cutting a text at a character

A text is cut at the first or at the last occurrence of a mark, or at all of
them.  The parts never contain the mark where the cut says so, and joining the
parts with the mark gives the text back; the lemmas below state both, and the
grammars of type names, addresses and destination tokens rest on them.
-/

namespace Wiring.Text

/-- The parts before and after the first occurrence of `mark`. -/
def cutFirst (mark : Char) : List Char → Option (List Char × List Char)
  | [] => none
  | c :: rest =>
    if c = mark then some ([], rest)
    else match cutFirst mark rest with
      | none => none
      | some (before, after) => some (c :: before, after)

/-- The parts before and after the last occurrence of `mark`. -/
def cutLast (mark : Char) : List Char → Option (List Char × List Char)
  | [] => none
  | c :: rest =>
    match cutLast mark rest with
    | some (before, after) => some (c :: before, after)
    | none => if c = mark then some ([], rest) else none

/-- The fields between all occurrences of `mark`: one more than there are
marks, so the empty text has one empty field. -/
def fields (mark : Char) : List Char → List (List Char)
  | [] => [[]]
  | c :: rest =>
    if c = mark then [] :: fields mark rest
    else match fields mark rest with
      | [] => [[c]]
      | field :: others => (c :: field) :: others

/-- The text before the first `mark`, or all of it. -/
def upTo (mark : Char) (cs : List Char) : List Char :=
  match cutFirst mark cs with
  | none => cs
  | some (before, _) => before

/-! ## What a cut says about the text -/

theorem cutFirst_eq_none_iff {mark : Char} {cs : List Char} :
    cutFirst mark cs = none ↔ mark ∉ cs := by
  induction cs with
  | nil => simp [cutFirst]
  | cons c rest ih =>
    by_cases hc : c = mark
    · simp [cutFirst, hc]
    · cases hr : cutFirst mark rest with
      | none => simp [cutFirst, hc, hr, ih.1 hr, Ne.symm hc]
      | some p =>
        have : mark ∈ rest := by
          apply Classical.byContradiction
          intro hmem
          simp [ih.2 hmem] at hr
        simp [cutFirst, hc, hr, this]

theorem cutFirst_append {mark : Char} {before after : List Char}
    (hbefore : mark ∉ before) :
    cutFirst mark (before ++ mark :: after) = some (before, after) := by
  induction before with
  | nil => simp [cutFirst]
  | cons c rest ih =>
    simp only [List.mem_cons, not_or] at hbefore
    simp [cutFirst, Ne.symm hbefore.1, ih hbefore.2]

theorem cutFirst_eq_some_iff {mark : Char} {cs before after : List Char} :
    cutFirst mark cs = some (before, after) ↔
      cs = before ++ mark :: after ∧ mark ∉ before := by
  constructor
  · intro h
    induction cs generalizing before with
    | nil => simp [cutFirst] at h
    | cons c rest ih =>
      by_cases hc : c = mark
      · simp only [cutFirst, hc, if_true, Option.some.injEq, Prod.mk.injEq] at h
        obtain ⟨rfl, rfl⟩ := h
        simp [hc]
      · cases hr : cutFirst mark rest with
        | none => simp [cutFirst, hc, hr] at h
        | some p =>
          obtain ⟨b, a⟩ := p
          simp only [cutFirst, hc, if_false, hr, Option.some.injEq, Prod.mk.injEq] at h
          obtain ⟨rfl, rfl⟩ := h
          obtain ⟨hrest, hb⟩ := ih hr
          exact ⟨by simp [hrest], by simp [Ne.symm hc, hb]⟩
  · rintro ⟨rfl, hbefore⟩
    exact cutFirst_append hbefore

theorem cutLast_eq_none_iff {mark : Char} {cs : List Char} :
    cutLast mark cs = none ↔ mark ∉ cs := by
  induction cs with
  | nil => simp [cutLast]
  | cons c rest ih =>
    cases hr : cutLast mark rest with
    | none =>
      have hrest := ih.1 hr
      by_cases hc : c = mark
      · simp [cutLast, hr, hc]
      · simp [cutLast, hr, hc, hrest, Ne.symm hc]
    | some p =>
      have : mark ∈ rest := by
        apply Classical.byContradiction
        intro hmem
        simp [ih.2 hmem] at hr
      simp [cutLast, hr, this]

theorem cutLast_eq_some_iff {mark : Char} {cs before after : List Char} :
    cutLast mark cs = some (before, after) ↔
      cs = before ++ mark :: after ∧ mark ∉ after := by
  induction cs generalizing before with
  | nil => simp [cutLast]
  | cons c rest ih =>
    cases hr : cutLast mark rest with
    | none =>
      have hrest := cutLast_eq_none_iff.1 hr
      constructor
      · intro h
        by_cases hc : c = mark
        · simp only [cutLast, hr, hc, if_true, Option.some.injEq, Prod.mk.injEq] at h
          obtain ⟨rfl, rfl⟩ := h
          exact ⟨by simp [hc], hrest⟩
        · simp [cutLast, hr, hc] at h
      · rintro ⟨hcs, hafter⟩
        cases before with
        | nil =>
          simp only [List.nil_append, List.cons.injEq] at hcs
          rw [← hcs.2, hcs.1]
          simp [cutLast, hr]
        | cons b before =>
          simp only [List.cons_append, List.cons.injEq] at hcs
          exact absurd (by simp [hcs.2]) hrest
    | some p =>
      obtain ⟨b, a⟩ := p
      have hmem : mark ∈ rest := by
        apply Classical.byContradiction
        intro hmem
        simp [cutLast_eq_none_iff.2 hmem] at hr
      constructor
      · intro h
        simp only [cutLast, hr, Option.some.injEq, Prod.mk.injEq] at h
        obtain ⟨rfl, rfl⟩ := h
        obtain ⟨hrest, ha⟩ := ih.1 hr
        exact ⟨by simp [hrest], ha⟩
      · rintro ⟨hcs, hafter⟩
        cases before with
        | nil =>
          simp only [List.nil_append, List.cons.injEq] at hcs
          exact absurd (hcs.2 ▸ hmem) hafter
        | cons b' before =>
          simp only [List.cons_append, List.cons.injEq] at hcs
          have := ih.2 ⟨hcs.2, hafter⟩
          rw [hr] at this
          simp only [Option.some.injEq, Prod.mk.injEq] at this
          simp [cutLast, hr, hcs.1, this.1, this.2]

theorem fields_ne_nil (mark : Char) (cs : List Char) : fields mark cs ≠ [] := by
  cases cs with
  | nil => simp [fields]
  | cons c rest =>
    by_cases hc : c = mark
    · simp [fields, hc]
    · cases hr : fields mark rest <;> simp [fields, hc, hr]

/-- The fields of two texts with the mark between them are those of both. -/
theorem fields_append_cons (mark : Char) (before after : List Char) :
    fields mark (before ++ mark :: after) = fields mark before ++ fields mark after := by
  induction before with
  | nil => simp [fields]
  | cons c rest ih =>
    rw [List.cons_append, fields, fields, ih]
    split
    · rfl
    · cases hrest : fields mark rest with
      | nil => exact absurd hrest (fields_ne_nil mark rest)
      | cons field others => rfl

theorem fields_of_not_mem {mark : Char} {cs : List Char} (hcs : mark ∉ cs) :
    fields mark cs = [cs] := by
  induction cs with
  | nil => simp [fields]
  | cons c rest ih =>
    simp only [List.mem_cons, not_or] at hcs
    simp [fields, Ne.symm hcs.1, ih hcs.2]

theorem fields_append {mark : Char} {before : List Char} (after : List Char)
    (hbefore : mark ∉ before) :
    fields mark (before ++ mark :: after) = before :: fields mark after := by
  rw [fields_append_cons, fields_of_not_mem hbefore, List.singleton_append]

theorem length_fields (mark : Char) (cs : List Char) :
    (fields mark cs).length = cs.count mark + 1 := by
  induction cs with
  | nil => rfl
  | cons c rest ih =>
    by_cases hc : c = mark
    · simp [fields, hc, ih]
    · cases hr : fields mark rest with
      | nil => exact absurd hr (fields_ne_nil mark rest)
      | cons field others =>
        rw [hr] at ih
        simpa [fields, hc, hr] using ih

/-- No field contains the mark. -/
theorem not_mem_of_mem_fields {mark : Char} {cs field : List Char}
    (hfield : field ∈ fields mark cs) : mark ∉ field := by
  induction cs generalizing field with
  | nil => simp [fields] at hfield; simp [hfield]
  | cons c rest ih =>
    by_cases hc : c = mark
    · simp only [fields, hc, if_true, List.mem_cons] at hfield
      rcases hfield with rfl | hfield
      · simp
      · exact ih hfield
    · cases hr : fields mark rest with
      | nil => exact absurd hr (fields_ne_nil mark rest)
      | cons f others =>
        rw [hr] at ih
        simp only [fields, hc, if_false, hr, List.mem_cons] at hfield
        rcases hfield with rfl | hfield
        · have := ih (List.mem_cons_self ..)
          simp [Ne.symm hc, this]
        · exact ih (List.mem_cons_of_mem _ hfield)

/-- Joining the fields with the mark gives the text back. -/
theorem intercalate_fields (mark : Char) (cs : List Char) :
    [mark].intercalate (fields mark cs) = cs := by
  induction cs with
  | nil => simp [fields, List.intercalate]
  | cons c rest ih =>
    by_cases hc : c = mark
    · cases hr : fields mark rest with
      | nil => exact absurd hr (fields_ne_nil mark rest)
      | cons f others =>
        rw [hr] at ih
        simp only [fields, hc, if_true, hr]
        simp only [List.intercalate, List.intersperse, List.flatten_cons] at ih ⊢
        simp [ih]
    · cases hr : fields mark rest with
      | nil => exact absurd hr (fields_ne_nil mark rest)
      | cons f others =>
        rw [hr] at ih
        simp only [fields, hc, if_false, hr]
        cases others with
        | nil => simpa [List.intercalate] using ih
        | cons g others =>
          simp only [List.intercalate, List.intersperse, List.flatten_cons,
            List.cons_append] at ih ⊢
          rw [ih]

end Wiring.Text
