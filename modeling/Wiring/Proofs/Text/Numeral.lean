import Wiring.Text.Numeral

/-!
# Numerals in a text

The digits of a number are read back where no further digit follows them,
`readUpTo_padded`, and where their count is known, whatever follows.  A numeral has a
leading zero only if it is that of zero, `head?_toDigits`.
-/

namespace Wiring.Text

/-- Whether a text goes on with something other than a digit. -/
def EndsDigits (cs : List Char) : Prop := ∀ c ∈ cs.head?, c.isDigit = false

theorem endsDigits_cons {c : Char} {cs : List Char} (h : c.isDigit = false) :
    EndsDigits (c :: cs) := by
  simpa [EndsDigits] using h

section Digits

variable {ds rest : List Char} (hds : ∀ c ∈ ds, c.isDigit = true) (hrest : EndsDigits rest)

include hds hrest

theorem takeWhile_isDigit_append : (ds ++ rest).takeWhile Char.isDigit = ds := by
  rw [List.takeWhile_append_of_pos hds]
  cases rest with
  | nil => simp
  | cons c cs => simp [hrest c rfl]

theorem dropWhile_isDigit_append : (ds ++ rest).dropWhile Char.isDigit = rest := by
  rw [List.dropWhile_append_of_pos hds]
  cases rest with
  | nil => simp
  | cons c cs => simp [hrest c rfl]

end Digits

theorem exists_cons_of_isDigit {ds : List Char} (hds : ∀ c ∈ ds, c.isDigit = true)
    (hne : ds ≠ []) : ∃ c cs, ds = c :: cs ∧ c.isDigit = true := by
  obtain ⟨c, cs, rfl⟩ := List.exists_cons_of_ne_nil hne
  exact ⟨c, cs, rfl, hds c List.mem_cons_self⟩

theorem isDigit_of_mem_toDigits {n : Nat} {c : Char} (h : c ∈ Nat.toDigits 10 n) :
    c.isDigit = true :=
  Nat.isDigit_of_mem_toDigits (by decide) (by decide) h

theorem exists_toDigits_eq_cons (n : Nat) :
    ∃ c cs, Nat.toDigits 10 n = c :: cs ∧ c.isDigit = true :=
  exists_cons_of_isDigit (fun _ => isDigit_of_mem_toDigits) Nat.toDigits_ne_nil

/-- Only the numeral of zero begins with a zero. -/
theorem head?_toDigits {n : Nat} : (Nat.toDigits 10 n).head? = some '0' ↔ n = 0 := by
  refine ⟨fun h => ?_, fun h => by rw [h]; rfl⟩
  induction n using Nat.strongRecOn with
  | ind n ih =>
    rw [Nat.toDigits_eq_if (by decide)] at h
    split at h
    · rename_i hlt
      -- A single digit is the character of the number.
      have hdigits : ∀ d : Fin 10, Nat.digitChar d.val = '0' → d.val = 0 := by decide
      exact hdigits ⟨n, hlt⟩ (by simpa using h)
    · rename_i hge
      obtain ⟨c, cs, hcons, -⟩ := exists_toDigits_eq_cons (n / 10)
      rw [hcons] at h
      have hzero : n / 10 = 0 := ih (n / 10) (by omega) (by rw [hcons]; exact h)
      omega

/-! ## Filled up with zeros -/

theorem isDigit_of_mem_padded {width n : Nat} {c : Char} (h : c ∈ padded width n) :
    c.isDigit = true := by
  rcases List.mem_append.1 h with h | h
  · rw [List.eq_of_mem_replicate h]
    decide
  · exact isDigit_of_mem_toDigits h

theorem padded_ne_nil {width n : Nat} : padded width n ≠ [] := by
  simp [padded]

theorem exists_padded_eq_cons (width n : Nat) :
    ∃ c cs, padded width n = c :: cs ∧ c.isDigit = true :=
  exists_cons_of_isDigit (fun _ => isDigit_of_mem_padded) padded_ne_nil

@[simp] theorem ofDigitChars_padded (width n : Nat) :
    Nat.ofDigitChars 10 (padded width n) 0 = n := by
  simp [padded, Nat.ofDigitChars_append, Nat.ofDigitChars_replicate_zero]

theorem length_padded {width n : Nat} (hwidth : 0 < width) (h : n < Nat.pow 10 width) :
    (padded width n).length = width := by
  have hlength := (Nat.length_toDigits_le_iff (by decide) hwidth).2 h
  simp only [padded, List.length_append, List.length_replicate]
  omega

/-- A numeral is read back where no further digit follows, if it is not too long. -/
theorem readUpTo_append {ds rest : List Char} {most : Nat}
    (hds : ∀ c ∈ ds, c.isDigit = true) (hne : ds ≠ []) (hmost : ds.length ≤ most)
    (hrest : EndsDigits rest) :
    readUpTo most (ds ++ rest) = some (Nat.ofDigitChars 10 ds 0, rest) := by
  rw [readUpTo, takeWhile_isDigit_append hds hrest, List.take_of_length_le hmost, if_neg hne,
    List.drop_left]

theorem readUpTo_padded {width n most : Nat} {rest : List Char}
    (hmost : (padded width n).length ≤ most) (hrest : EndsDigits rest) :
    readUpTo most (padded width n ++ rest) = some (n, rest) := by
  rw [readUpTo_append (fun _ => isDigit_of_mem_padded) padded_ne_nil hmost hrest,
    ofDigitChars_padded]

end Wiring.Text
