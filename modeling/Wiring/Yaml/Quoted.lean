import Wiring.Text.Hexadecimal
import Wiring.Yaml.Gap

/-!
# Quoted scalars

Between single quotes only the quote itself is special: it is written twice.
Between double quotes a backslash begins an escape, which stands for one character,
or for nothing before the end of a line.

A quoted scalar is first read as pieces, which say what may be folded and what
stands as it is; `fold` makes the text of them.  A mark that begins or ends a
document may not stand at the begin of a line inside quotes.
-/

namespace Wiring.Yaml

open Wiring.Text (hexValue?)

/-- A piece of a quoted scalar. -/
inductive Piece where
  /-- A character that stands in the text; blanks and line ends may be folded. -/
  | written (c : Char)
  | exact (c : Char)
  | join
deriving DecidableEq, Repr

/-- The text of pieces behind a gap. -/
def fold (gap : Gap) : List Piece → List Char
  | [] => gap.text
  | .written c :: rest =>
    if isInlineBlank c then fold (gap.addBlank c) rest
    else if isBreak c then fold (gap.addBreak c) rest
    else gap.text ++ c :: fold .none rest
  | .exact c :: rest => gap.text ++ c :: fold .none rest
  | .join :: rest => gap.text ++ fold .escaped rest

/-- Pieces with one more in front, and what follows them. -/
def withPiece (piece : Piece) (read : Option (List Piece × List Char)) :
    Option (List Piece × List Char) :=
  read.map fun (pieces, rest) => (piece :: pieces, rest)

/-- The pieces of a scalar between single quotes, behind the first one, and what
follows the last one. -/
def readSingle : List Char → Option (List Piece × List Char)
  | [] => none
  | '\'' :: '\'' :: rest => withPiece (.exact '\'') (readSingle rest)
  | '\'' :: rest => some ([], rest)
  | c :: rest =>
    if isBreak c && isDocumentMark rest then none else withPiece (.written c) (readSingle rest)

/-- The character of a short escape. -/
def shortEscape : Char → Option Char
  | '0' => some '\x00'
  | 'a' => some '\x07'
  | 'b' => some '\x08'
  | 't' | '\t' => some '\t'
  | 'n' => some '\n'
  | 'v' => some '\x0b'
  | 'f' => some '\x0c'
  | 'r' => some '\r'
  | 'e' => some '\x1b'
  | ' ' => some ' '
  | '"' => some '"'
  | '/' => some '/'
  | '\\' => some '\\'
  | 'N' => some '\u0085'
  | '_' => some '\u00a0'
  | 'L' => some '\u2028'
  | 'P' => some '\u2029'
  | _ => none

/-- The number of hexadecimal digits. -/
def hexNumber (value : Nat) : List Char → Option Nat
  | [] => some value
  | c :: rest =>
    match hexValue? c with
    | none => none
    | some d => hexNumber (value * 16 + d.val) rest

/-- The character whose code is given by hexadecimal digits. -/
def hexChar (digits : List Char) : Option Char :=
  match hexNumber 0 digits with
  | none => none
  | some code => if code.isValidChar then some (Char.ofNat code) else none

/-- The pieces behind an escape, with the character of the escape in front. -/
def withEscape (c? : Option Char) (read : Option (List Piece × List Char)) :
    Option (List Piece × List Char) :=
  match c? with
  | none => none
  | some c => withPiece (.exact c) read

/-- The pieces of a scalar between double quotes, behind the first one, and what
follows the last one. -/
def readDouble : List Char → Option (List Piece × List Char)
  | [] => none
  | '"' :: rest => some ([], rest)
  | '\\' :: 'x' :: a :: b :: rest => withEscape (hexChar [a, b]) (readDouble rest)
  | '\\' :: 'u' :: a :: b :: c :: d :: rest =>
    withEscape (hexChar [a, b, c, d]) (readDouble rest)
  | '\\' :: 'U' :: a :: b :: c :: d :: e :: f :: g :: h :: rest =>
    withEscape (hexChar [a, b, c, d, e, f, g, h]) (readDouble rest)
  | '\\' :: c :: rest =>
    if isBreak c then if isDocumentMark rest then none else withPiece .join (readDouble rest)
    else withEscape (shortEscape c) (readDouble rest)
  | c :: rest =>
    if isBreak c && isDocumentMark rest then none else withPiece (.written c) (readDouble rest)

/-- The text of a scalar behind its first quote, which is a double one or not, and
what follows the last quote; nothing when there is none or an escape is unknown. -/
def readQuoted (isDouble : Bool) (cs : List Char) : Option (List Char × List Char) :=
  (if isDouble then readDouble cs else readSingle cs).map fun (pieces, rest) =>
    (fold .none pieces, rest)

end Wiring.Yaml
