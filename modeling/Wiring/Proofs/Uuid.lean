import Wiring.Uuid

/-!
# Identifiers read back

Characters that fill their groups come out of them again, and each digit is read from its
character.  The text of an identifier is too long to be one without hyphens and begins with a
digit, so it is taken for what it is, `read_text`.
-/

namespace Wiring.Uuid

open Wiring.Text

/-- The number of characters in groups. -/
def room : List Nat → Nat
  | [] => 0
  | size :: rest => size + room rest

/-- Characters that fill their groups come out of them again. -/
theorem unhyphenated_hyphenated {sizes : List Nat} {cs : List Char}
    (h : cs.length = room sizes) : unhyphenated sizes (hyphenated sizes cs) = some cs := by
  fun_induction hyphenated sizes cs with
  | case1 cs =>
    rw [List.length_eq_zero_iff.1 h]
    rfl
  | case2 size cs =>
    have hlength : cs.length = size := h
    rw [List.take_of_length_le (Nat.le_of_eq hlength), unhyphenated, if_pos hlength]
  | case3 size rest cs hrest ih =>
    rw [room] at h
    have htake : (cs.take size).length = size := by
      rw [List.length_take]
      omega
    have hothers := ih (by rw [List.length_drop]; omega)
    rw [unhyphenated, List.drop_left' htake]
    · simp only [hothers, Option.map_some, List.take_left' htake, List.take_append_drop]
    · exact hrest

theorem length_hyphenated {sizes : List Nat} {cs : List Char} (h : cs.length = room sizes) :
    (hyphenated sizes cs).length = cs.length + (sizes.length - 1) := by
  fun_induction hyphenated sizes cs with
  | case1 cs => simp_all [room]
  | case2 size cs =>
    have hlength : cs.length = size := h
    simp [hlength]
  | case3 size rest cs hrest ih =>
    rw [room] at h
    have hothers := ih (by rw [List.length_drop]; omega)
    have hpos : 0 < rest.length := List.length_pos_iff.2 hrest
    simp only [List.length_append, List.length_cons, List.length_take, List.length_drop] at *
    omega

theorem readDigits_map_hexDigit (ds : List (Fin 16)) :
    readDigits (ds.map hexDigit) = some ds := by
  induction ds with
  | nil => rfl
  | cons d ds ih => rw [List.map_cons, readDigits, hexValue?_hexDigit, ih]

theorem ofChars?_map_hexDigit (u : Uuid) : ofChars? (u.digits.map hexDigit) = some u := by
  rw [ofChars?, readDigits_map_hexDigit]
  exact dif_pos u.length_digits

/-- What begins with a hexadecimal digit has nothing around it. -/
theorem unwrapped_hexDigit (d : Fin 16) (cs : List Char) :
    unwrapped (hexDigit d :: cs) = hexDigit d :: cs := by
  have hbrace : ∀ d : Fin 16, hexDigit d ≠ '\x7b' := by decide
  have hname : ∀ d : Fin 16, ('u' == hexDigit d) = false := by decide
  have hprefix : "urn:uuid:".toList = 'u' :: "rn:uuid:".toList := by decide
  rw [unwrapped, hprefix, List.isPrefixOf_cons_cons, hname d]
  · rfl
  · rintro others heq
    exact hbrace d (List.cons.inj heq).1

/-- An identifier is read back from its text. -/
theorem read_text (u : Uuid) : read u.text = some u := by
  have hlength : (u.digits.map hexDigit).length = room groups := by
    rw [List.length_map, u.length_digits]
    rfl
  have hread := unhyphenated_hyphenated hlength
  have hlong : (hyphenated groups (u.digits.map hexDigit)).length ≠ 32 := by
    rw [length_hyphenated hlength, List.length_map, u.length_digits]
    decide
  have hne : u.digits ≠ [] := fun hnil => by
    have h := u.length_digits
    rw [hnil] at h
    exact absurd h (by decide)
  obtain ⟨d, ds, hds⟩ := List.exists_cons_of_ne_nil hne
  have hunwrapped : unwrapped (hyphenated groups (u.digits.map hexDigit)) =
      hyphenated groups (u.digits.map hexDigit) := by
    rw [hds]
    exact unwrapped_hexDigit d _
  simp only [read, text, String.toList_ofList, if_neg hlong, hunwrapped, hread,
    ofChars?_map_hexDigit]

end Wiring.Uuid
