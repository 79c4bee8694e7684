import Wiring.Json
import Wiring.Text.Hexadecimal

/-!
# Tokens of JSON texts

A JSON text is a sequence of tokens with blanks between them.  The tokens of a
value and the text of a token are defined here; every written form of a value is
made of these texts.

In a string literal the quote, the backslash and the control characters are
escaped, and all other characters stand as they are.
-/

namespace Wiring.Json

open Wiring.Text (hexDigit lastHex)

/-- A token of a JSON text. -/
inductive Token where
  | openArray
  | closeArray
  | openObject
  | closeObject
  | comma
  | colon
  | null
  | bool (value : Bool)
  | number (value : Number)
  | string (text? : Option String)
deriving DecidableEq, Repr

/-! ## The text of a token -/

/-- The digits of a natural number. -/
def digits (n : Nat) : List Char := Nat.toDigits 10 n

/-- The text of an integer. -/
def integerText (n : Int) : List Char :=
  match n with
  | .ofNat n => digits n
  | .negSucc n => '-' :: digits (n + 1)

/-- The minus sign of a negative number. -/
def signText (negative : Bool) : List Char := if negative then ['-'] else []

/-- The point of a number with the digits behind it, if there are any. -/
def fractionText : List (Fin 10) → List Char
  | [] => []
  | digit :: rest => '.' :: (digit :: rest).map fun d : Fin 10 => Nat.digitChar d.val

/-- The text of a number. -/
def numberText : Number → List Char
  | .whole negative magnitude => signText negative ++ digits magnitude
  | .decimal negative whole fraction exponent =>
    signText negative ++ digits whole ++ fractionText fraction ++ 'e' :: integerText exponent

/-- The escape of a 16-bit unit. -/
def unitEscape (n : Nat) : List Char :=
  ['\\', 'u', hexDigit (lastHex (n / 4096)), hexDigit (lastHex (n / 256)),
    hexDigit (lastHex (n / 16)), hexDigit (lastHex n)]

/-- A character as it stands in a string literal. -/
def escapeChar (c : Char) : List Char :=
  if c = '"' then ['\\', '"']
  else if c = '\\' then ['\\', '\\']
  else if c = '\x08' then ['\\', 'b']
  else if c = '\x0c' then ['\\', 'f']
  else if c = '\n' then ['\\', 'n']
  else if c = '\r' then ['\\', 'r']
  else if c = '\t' then ['\\', 't']
  else if c.toNat < 32 then unitEscape c.toNat
  else [c]

/-- A string literal.  One without a text is written as a lone half of a
surrogate pair. -/
def literal : Option String → List Char
  | none => '"' :: unitEscape 0xd800 ++ ['"']
  | some s => '"' :: s.toList.flatMap escapeChar ++ ['"']

/-- The text of a token. -/
def Token.text : Token → List Char
  | .openArray => ['[']
  | .closeArray => [']']
  | .openObject => ['\x7b']
  | .closeObject => ['\x7d']
  | .comma => [',']
  | .colon => [':']
  | .null => ['n', 'u', 'l', 'l']
  | .bool true => ['t', 'r', 'u', 'e']
  | .bool false => ['f', 'a', 'l', 's', 'e']
  | .number value => numberText value
  | .string text? => literal text?

/-! ## The tokens of a value -/

mutual

/-- The tokens of a value. -/
def tokens : Json → List Token
  | .null => [.null]
  | .bool value => [.bool value]
  | .number value => [.number value]
  | .string text? => [.string text?]
  | .array items => .openArray :: (itemTokens items ++ [.closeArray])
  | .object members => .openObject :: (memberTokens members ++ [.closeObject])

/-- The tokens of the items of a list. -/
def itemTokens : List Json → List Token
  | [] => []
  | [value] => tokens value
  | value :: next :: rest => tokens value ++ .comma :: itemTokens (next :: rest)

/-- The tokens of the members of an object. -/
def memberTokens : List (Option String × Json) → List Token
  | [] => []
  | [(key, value)] => .string key :: .colon :: tokens value
  | (key, value) :: next :: rest =>
    .string key :: .colon :: (tokens value ++ .comma :: memberTokens (next :: rest))

end

/-- The text of a value without blanks. -/
def compact (value : Json) : String := String.ofList (value.tokens.flatMap Token.text)

end Wiring.Json
