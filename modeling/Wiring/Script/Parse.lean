import Wiring.Script
import Wiring.Script.Scan
import Wiring.Text.Cut
import Wiring.Text.Lines

/-!
# From a text to its script

Each line holds one operation or none.  A line without tokens is skipped, and
the first line with a fault decides the answer: its number counts all lines of
the text, from one.
-/

namespace Wiring.Script

open Wiring.Text

/-- The address of a component: two non-empty fields around the only dot. -/
def componentPath (word : String) : Except ScriptFault ComponentPath :=
  match cutFirst '.' word.toList with
  | some (node, id) =>
    if node ≠ [] ∧ id ≠ [] ∧ '.' ∉ id then
      .ok ⟨String.ofList node, String.ofList id⟩
    else .error (.notComponent word)
  | none => .error (.notComponent word)

/-- The address of a port or an attribute: two non-empty fields at the first
two dots and a name, which may hold dots, after them. -/
def memberPath (word : String) : Except ScriptFault (ComponentPath × String) :=
  match cutFirst '.' word.toList with
  | none => .error (.notMember word)
  | some (node, rest) =>
    match cutFirst '.' rest with
    | none => .error (.notMember word)
    | some (id, member) =>
      if node ≠ [] ∧ id ≠ [] ∧ member ≠ [] then
        .ok (⟨String.ofList node, String.ofList id⟩, String.ofList member)
      else .error (.notMember word)

/-- Take a word from the front of the tokens. -/
def takeName : List Token → Except ScriptFault (String × List Token)
  | .word text :: rest => .ok (text, rest)
  | tokens => .error (.nameExpected tokens.head?)

/-- Take a given token from the front of the tokens. -/
def takeToken (wanted : Token) : List Token → Except ScriptFault (List Token)
  | [] => .error (.tokenExpected wanted none)
  | token :: rest =>
    if token = wanted then .ok rest else .error (.tokenExpected wanted (some token))

/-- Take a string literal from the front of the tokens. -/
def takeLiteral : List Token → Except ScriptFault (String × List Token)
  | .literal value :: rest => .ok (value, rest)
  | tokens => .error (.literalExpected tokens.head?)

/-- The creation behind its keyword.  A target with a dot is a component. -/
def parseAdd (tokens : List Token) : Except ScriptFault (Op × List Token) := do
  let (target, tokens) ← takeName tokens
  let tokens ← takeToken .colon tokens
  let (typeName, tokens) ← takeName tokens
  if '.' ∈ target.toList then
    let path ← componentPath target
    return (.addComponent path typeName, tokens)
  else
    return (.addChannel ⟨target⟩ typeName, tokens)

/-- The assignment behind its keyword. -/
def parseSet (tokens : List Token) : Except ScriptFault (Op × List Token) := do
  let (target, tokens) ← takeName tokens
  let tokens ← takeToken .equals tokens
  let (value, tokens) ← takeLiteral tokens
  let (path, key) ← memberPath target
  return (.setAttribute path key value, tokens)

/-- The connection behind its keyword. -/
def parseBind (tokens : List Token) : Except ScriptFault (Op × List Token) := do
  let (target, tokens) ← takeName tokens
  let (channel, tokens) ← takeName tokens
  let (component, port) ← memberPath target
  return (.bind ⟨component, port⟩ ⟨channel⟩, tokens)

/-- The removal behind its keyword. -/
def parseRemove (tokens : List Token) : Except ScriptFault (Op × List Token) := do
  let (target, tokens) ← takeName tokens
  let path ← componentPath target
  return (.remove path, tokens)

/-- The operation at the front of the tokens of a line. -/
def parseOp : List Token → Except ScriptFault (Op × List Token)
  | .add :: rest => parseAdd rest
  | .set :: rest => parseSet rest
  | .bind :: rest => parseBind rest
  | .remove :: rest => parseRemove rest
  | tokens => .error (.keywordExpected tokens.head?)

/-- The operation of a line, if the line has tokens. -/
def parseLine (line : List Char) : Except ScriptFault (Option Op) :=
  match tokens line with
  | .error fault => .error fault
  | .ok [] => .ok none
  | .ok (token :: others) =>
    match parseOp (token :: others) with
    | .error fault => .error fault
    | .ok (op, []) => .ok (some op)
    | .ok (_, extra :: _) => .error (.trailing extra)

/-- The operations of lines, the first of which has the number `number`. -/
def parseLines (number : Nat) : List (List Char) → Except Failure Script
  | [] => .ok []
  | line :: others =>
    match parseLine line with
    | .error fault => .error (.invalidScript number fault)
    | .ok none => parseLines (number + 1) others
    | .ok (some op) =>
      match parseLines (number + 1) others with
      | .error failure => .error failure
      | .ok script => .ok (op :: script)

/-- The script that a text describes. -/
def parse (text : String) : Except Failure Script :=
  parseLines 1 (lines text.toList)

end Wiring.Script
