/-!
# Hexadecimal digits

Digits are written in lower case and read in either case.
-/

namespace Wiring.Text

/-- The character of a hexadecimal digit. -/
def hexDigit (d : Fin 16) : Char := Nat.digitChar d.val

/-- The last hexadecimal digit of a number. -/
def lastHex (n : Nat) : Fin 16 := ⟨n % 16, Nat.mod_lt n (by decide)⟩

/-- The digit of a character. -/
def hexValue? (c : Char) : Option (Fin 16) :=
  if '0' ≤ c ∧ c ≤ '9' then some (lastHex (c.toNat - '0'.toNat))
  else if 'a' ≤ c ∧ c ≤ 'f' then some (lastHex (c.toNat - 'a'.toNat + 10))
  else if 'A' ≤ c ∧ c ≤ 'F' then some (lastHex (c.toNat - 'A'.toNat + 10))
  else none

/-- A digit is read from its character. -/
theorem hexValue?_hexDigit : ∀ d : Fin 16, hexValue? (hexDigit d) = some d := by decide

end Wiring.Text
