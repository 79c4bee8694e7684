import Wiring.Text.Hidden

/-!
# Texts shown in messages

A message that reports a piece of input shows it between double quotes, with
escapes for the quote, the backslash, and everything a reader could not see.
The result stays on one line whatever the input holds.  `Shown` lists of texts
stand in square brackets.
-/

namespace Wiring.Text

/-- A code point in hexadecimal with lower-case digits and no leading zero. -/
def hexadecimal (n : Nat) : List Char :=
  Nat.toDigits 16 n

/-- One character as it stands between the quotes. -/
def shownChar (c : Char) : List Char :=
  if c = '"' then ['\\', '"']
  else if c = '\\' then ['\\', '\\']
  else if c = '\x00' then ['\\', '0']
  else if c = '\t' then ['\\', 't']
  else if c = '\r' then ['\\', 'r']
  else if c = '\n' then ['\\', 'n']
  else if isHidden c then ['\\', 'u', '\x7b'] ++ hexadecimal c.toNat ++ ['\x7d']
  else [c]

/-- A text between double quotes, its hidden characters escaped. -/
def shown (cs : List Char) : String :=
  "\"" ++ String.ofList (cs.flatMap shownChar) ++ "\""

/-- A list of texts between square brackets. -/
def shownList (texts : List String) : String :=
  "[" ++ ", ".intercalate (texts.map fun text => shown text.toList) ++ "]"

end Wiring.Text
