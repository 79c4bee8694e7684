import Wiring.Text.Hexadecimal
import Wiring.Yaml.Character

/-!
# Tags and their handles

A tag begins with an exclamation mark.  It is a handle and a suffix, or a whole
identifier between angle brackets.  Tags change nothing about the text of a scalar,
so only their form is read, with the handle that must have been declared.
-/

namespace Wiring.Yaml

open Wiring.Text (hexValue?)

/-- A character that goes into an identifier.  Brackets and commas do so only where
nothing else could be meant. -/
def isUriChar (bracketsToo : Bool) (c : Char) : Bool :=
  isNameChar c || ";/?:@&=+$.!~*'()".toList.contains c ||
    (bracketsToo && ",[]".toList.contains c)

/-- The number of octets that follow the first one of a character. -/
def followers (octet : Nat) : Option Nat :=
  if octet < 0x80 then some 0
  else if octet < 0xc0 then none
  else if octet < 0xe0 then some 1
  else if octet < 0xf0 then some 2
  else if octet < 0xf8 then some 3
  else none

/-- How many octets are due behind another one. -/
def nextDue (due octet : Nat) : Option Nat :=
  if due = 0 then followers octet
  else if 0x80 ≤ octet && octet < 0xc0 then some (due - 1)
  else none

/-- What follows an identifier; nothing when an escape in it is malformed.  An escape
gives an octet, and `due` octets are still due for the character they make. -/
def afterUri (bracketsToo : Bool) (due : Nat) : List Char → Option (List Char)
  | [] => if due = 0 then some [] else none
  | '%' :: a :: b :: rest =>
    match hexValue? a, hexValue? b with
    | some a, some b =>
      match nextDue due (a.val * 16 + b.val) with
      | none => none
      | some due => afterUri bracketsToo due rest
    | _, _ => none
  | c :: rest =>
    if 0 < due || c = '%' then none
    else if isUriChar bracketsToo c then afterUri bracketsToo 0 rest
    else some (c :: rest)

/-- What follows an identifier that is not empty. -/
def afterSomeUri (bracketsToo : Bool) (cs : List Char) : Option (List Char) :=
  match afterUri bracketsToo 0 cs with
  | none => none
  | some rest => if rest.length < cs.length then some rest else none

/-- The handle of a name, which stands between exclamation marks. -/
def handleOf (name : List Char) : String := String.ofList ('!' :: name ++ ['!'])

/-- What follows a tag behind its exclamation mark, and its handle if it must have
been declared. -/
def readTag (cs : List Char) : Option (Option String × List Char) :=
  match cs with
  | '<' :: uri =>
    match afterSomeUri true uri with
    | some ('>' :: rest) => some (none, rest)
    | _ => none
  | _ =>
    let name := cs.takeWhile isNameChar
    match cs.dropWhile isNameChar with
    | '!' :: suffix =>
      (afterSomeUri false suffix).map fun rest => (some (handleOf name), rest)
    | suffix => (afterUri false 0 suffix).map fun rest => (none, rest)

/-- Whether a tag may end here. -/
def endsTag (inFlow : Bool) (cs : List Char) : Bool :=
  endsWord cs || (inFlow && cs.head? = some ',')

end Wiring.Yaml
