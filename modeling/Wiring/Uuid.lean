import Wiring.Text.Hexadecimal

/-!
# Universally unique identifiers

An identifier is 32 hexadecimal digits.  It is written with hyphens in five groups;
it is read in that form, bare or in braces or behind `urn:uuid:`, and also without
hyphens.
-/

namespace Wiring

open Wiring.Text

/-- A universally unique identifier. -/
structure Uuid where
  digits : List (Fin 16)
  /-- There are 32 of them. -/
  length_digits : digits.length = 32
deriving DecidableEq, Repr

namespace Uuid

/-- The sizes of the groups between hyphens. -/
def groups : List Nat := [8, 4, 4, 4, 12]

/-- Write characters in groups with hyphens between them. -/
def hyphenated : List Nat → List Char → List Char
  | [], _ => []
  | [size], cs => cs.take size
  | size :: rest, cs => cs.take size ++ '-' :: hyphenated rest (cs.drop size)

/-- The text of an identifier. -/
def text (u : Uuid) : String := String.ofList (hyphenated groups (u.digits.map hexDigit))

/-- The text of an identifier without hyphens. -/
def bareText (u : Uuid) : String := String.ofList (u.digits.map hexDigit)

/-- The random identifier of some bytes: of the 128 bits of the first sixteen, six
are set to say that it is random. -/
def random (bytes : Nat → Nat) : Uuid :=
  { digits := (List.range 32).map fun i =>
      let digit := if i % 2 = 0 then bytes (i / 2) / 16 else bytes (i / 2)
      lastHex (if i = 12 then 4 else if i = 16 then 8 + digit % 4 else digit)
    length_digits := by simp }

/-- Take the hyphens out of characters in groups; nothing when a group is followed
by something else. -/
def unhyphenated : List Nat → List Char → Option (List Char)
  | [], _ => some []
  | [size], cs => if cs.length = size then some cs else none
  | size :: rest, cs =>
    match cs.drop size with
    | '-' :: others => (unhyphenated rest others).map (cs.take size ++ ·)
    | _ => none

/-- The digits of characters. -/
def readDigits : List Char → Option (List (Fin 16))
  | [] => some []
  | c :: rest =>
    match hexValue? c, readDigits rest with
    | some d, some ds => some (d :: ds)
    | _, _ => none

/-- The identifier of 32 characters that are digits. -/
def ofChars? (cs : List Char) : Option Uuid :=
  match readDigits cs with
  | none => none
  | some digits => if h : digits.length = 32 then some ⟨digits, h⟩ else none

/-- What stands in a text around the hyphenated form, taken off. -/
def unwrapped (cs : List Char) : List Char :=
  match cs with
  | '\x7b' :: rest => if rest.getLast? = some '\x7d' then rest.dropLast else cs
  | _ => if "urn:uuid:".toList.isPrefixOf cs then cs.drop 9 else cs

/-- Read an identifier. -/
def read (s : String) : Option Uuid :=
  let cs := s.toList
  if cs.length = 32 then ofChars? cs
  else
    match unhyphenated groups (unwrapped cs) with
    | none => none
    | some digits => ofChars? digits

end Uuid

end Wiring
