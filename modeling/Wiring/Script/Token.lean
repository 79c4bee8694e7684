import Wiring.Text.Shown

/-!
# Tokens of the script language

A script line is a sequence of tokens: four keywords, bare words, string
literals, and two marks.  Messages show a token by its kind and, where it
carries text, the text in quotes.
-/

namespace Wiring.Script

open Wiring.Text

/-- A token of a script line. -/
inductive Token where
  | add
  | set
  | bind
  | remove
  /-- A bare word: a dotted address, a channel id or a type name. -/
  | word (text : String)
  /-- A string literal, its escapes resolved. -/
  | literal (value : String)
  | colon
  | equals
deriving DecidableEq, Repr

/-- The characters of bare words. -/
def isWordChar (c : Char) : Bool :=
  c.isAlphanum || c = '_' || c = '-' || c = '.' || c = '/'

/-- The token that a run of word characters stands for. -/
def Token.ofWord (text : String) : Token :=
  if text = "add" then .add
  else if text = "set" then .set
  else if text = "bind" then .bind
  else if text = "remove" then .remove
  else .word text

/-- A token as messages show it. -/
def Token.shown : Token → String
  | .add => "Add"
  | .set => "Set"
  | .bind => "Bind"
  | .remove => "Remove"
  | .word text => "Word(" ++ Text.shown text.toList ++ ")"
  | .literal value => "StringLiteral(" ++ Text.shown value.toList ++ ")"
  | .colon => "Colon"
  | .equals => "Equals"

/-- A token, or the end of the line, as messages show it. -/
def Token.shownNext : Option Token → String
  | none => "None"
  | some token => "Some(" ++ token.shown ++ ")"

end Wiring.Script
