import Wiring.Yaml.Tag
import Wiring.Yaml.Token

/-!
# Directives

A line that begins with a percent sign tells something about the document that
follows: the version of the language it is written in, or a handle for its tags.
-/

namespace Wiring.Yaml

/-- The greatest number of digits in a number of a version. -/
def versionDigits : Nat := 9

/-- A number of a version at the front of a text, and what follows it. -/
def readVersionNumber (cs : List Char) : Option (Nat × List Char) :=
  let digits := cs.takeWhile Char.isDigit
  if digits = [] ∨ versionDigits < digits.length then none
  else some (Nat.ofDigitChars 10 digits 0, cs.dropWhile Char.isDigit)

/-- A version behind its name, and what follows it. -/
def readVersion (cs : List Char) : Option (Directive × List Char) :=
  match readVersionNumber (dropBlanks cs) with
  | some (major, '.' :: rest) =>
    (readVersionNumber rest).map fun (minor, rest) => (.version major minor, rest)
  | _ => none

/-- The name of a handle behind its exclamation mark, and what follows the handle.  A
handle with a name ends in an exclamation mark too. -/
def readHandle (cs : List Char) : Option (String × List Char) :=
  let name := cs.takeWhile isNameChar
  match cs.dropWhile isNameChar with
  | '!' :: rest => some (handleOf name, rest)
  | rest => if name = [] then some ("!", rest) else none

/-- The declaration of a handle behind its name, and what follows it. -/
def readDeclaration (cs : List Char) : Option (Directive × List Char) :=
  match dropBlanks cs with
  | '!' :: rest =>
    match readHandle rest with
    | none => none
    | some (handle, rest) =>
      if !rest.head?.any isInlineBlank then none
      else
        match afterSomeUri true (dropBlanks rest) with
        | none => none
        | some rest => if endsWord rest then some (.handle handle, rest) else none
  | _ => none

/-- A directive behind its percent sign, and what follows its line. -/
def readDirective (cs : List Char) : Option (Directive × List Char) :=
  let name := String.ofList (cs.takeWhile isNameChar)
  let rest := cs.dropWhile isNameChar
  let content? :=
    if !endsWord rest then none
    else if name = "YAML" then readVersion rest
    else if name = "TAG" then readDeclaration rest
    else none
  match content? with
  | none => none
  | some (content, rest) => (idleEnd rest).map fun rest => (content, rest.drop 1)

end Wiring.Yaml
