import Wiring.Json

/-!
# Values that can be read in full

Where a value is not known to be superfluous it has to be read in full, with each
number as a number and each literal as a text.  Not every value allows that.
-/

namespace Wiring

namespace Number

/-! ## Numbers as floating-point numbers

A number is read into a word of 64 bits and a power of ten.  The word takes the
digits from the front as long as there is room.  It is then rounded to the 53 bits
of the floating-point format, and so is the power of ten, before the two are
multiplied.  Both roundings come before the product, so a number next to the end
of the format can be refused although its own nearest float is finite. -/

/-- Whether a word has room for one more digit. -/
def hasRoom (word digit : Nat) : Bool := word * 10 + digit < Nat.pow 2 64

/-- The word with the digits of a whole part, and the number of the digits that it
has no room for. -/
def takeWhole (word : Nat) : List Nat → Nat × Nat
  | [] => (word, 0)
  | digit :: rest =>
    if hasRoom word digit then takeWhole (word * 10 + digit) rest else (word, rest.length + 1)

/-- The word with the digits of a fraction behind it, and the number of the digits
taken.  The digits that it has no room for do not count. -/
def takeFraction (word taken : Nat) : List Nat → Nat × Nat
  | [] => (word, taken)
  | digit :: rest =>
    if hasRoom word digit then takeFraction (word * 10 + digit) (taken + 1) rest
    else (word, taken)

/-- The digits of a natural number, the highest first. -/
def digitList (n : Nat) : List Nat := (Nat.toDigits 10 n).map fun c => c.toNat - '0'.toNat

/-- The word and the power of ten that a number is read into, without its sign. -/
def parts : Number → Nat × Int
  | .whole _ magnitude =>
    let (word, left) := takeWhole 0 (digitList magnitude)
    (word, left)
  | .decimal _ integer fraction exponent =>
    let (word, left) := takeWhole 0 (digitList integer)
    let (word, taken) := takeFraction word 0 (fraction.map Fin.val)
    (word, left - taken + exponent)

/-- The nearest number with at most 53 bits up to trailing zeros; of two, the one
whose last bit is zero. -/
def roundBits (n : Nat) : Nat :=
  let unit := Nat.pow 2 (Nat.log2 n - 52)
  let rest := n % unit
  let low := n / unit
  if unit < 2 * rest ∨ (unit = 2 * rest ∧ low % 2 = 1) then (low + 1) * unit else low * unit

/-- The least product that the floating-point format of 64 bits has no finite
number for: the middle between its largest number and the next one. -/
def overflow : Nat := Nat.pow 2 1024 - Nat.pow 2 970

/-- Whether a number is too large for the floating-point format of 64 bits. -/
def isTooLarge (n : Number) : Bool :=
  let (word, exponent) := n.parts
  if word = 0 ∨ exponent < 0 then false
  else if 308 < exponent then true
  else overflow ≤ roundBits word * roundBits (Nat.pow 10 exponent.toNat)

end Number

namespace Json

mutual

/-- Whether a value can be read in full: its literals stand for texts, its numbers
are not too large, and its containers fit into the room. -/
def isReadable (room : Nat) : Json → Bool
  | .null | .bool _ => true
  | .number n => !n.isTooLarge
  | .string text? => text?.isSome
  | .array items => 0 < room && allReadable (room - 1) items
  | .object members => 0 < room && allMembersReadable (room - 1) members

/-- Whether all values of a list can be read in full. -/
def allReadable (room : Nat) : List Json → Bool
  | [] => true
  | value :: rest => isReadable room value && allReadable room rest

/-- Whether all members of an object can be read in full. -/
def allMembersReadable (room : Nat) : List (Option String × Json) → Bool
  | [] => true
  | (key, value) :: rest => key.isSome && isReadable room value && allMembersReadable room rest

end

/-- A number without a sign, a fraction or an exponent, that fits into 64 bits. -/
def unsigned? : Json → Option Nat
  | .number (.whole false n) => if n < UInt64.size then some n else none
  | _ => none

end Json

end Wiring
