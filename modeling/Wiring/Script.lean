import Wiring.Address

/-!
# Adaptation scripts

A script is a list of operations on the component model, in the order in which
they are to be applied.  Its text has one line per operation:

    add <node>.<id> : <type>
    add <channel> : <type>
    set <node>.<id>.<attribute> = "<value>"
    bind <node>.<id>.<port> <channel>
    remove <node>.<id>

Only values are escaped.  The text of an operation whose names the language
cannot express is still written, as its names stand.
-/

namespace Wiring

/-- One change of the component model. -/
inductive Op where
  | addComponent (path : ComponentPath) (typeName : String)
  | addChannel (channel : ChannelId) (typeName : String)
  | setAttribute (path : ComponentPath) (key value : String)
  | bind (port : PortRef) (channel : ChannelId)
  | remove (path : ComponentPath)
deriving DecidableEq, Repr

/-- Operations in the order in which they are applied. -/
abbrev Script := List Op

namespace Script

/-- A character of a value as it stands in a string literal. -/
def escapeChar (c : Char) : List Char :=
  if c = '\\' then ['\\', '\\']
  else if c = '"' then ['\\', '"']
  else if c = '\n' then ['\\', 'n']
  else if c = '\t' then ['\\', 't']
  else [c]

/-- A value as it stands in a string literal, without the quotes. -/
def escape (value : List Char) : List Char :=
  value.flatMap escapeChar

end Script

namespace Op

/-- The keyword that an operation is written with. -/
def keyword : Op → String
  | .addComponent _ _ | .addChannel _ _ => "add"
  | .setAttribute _ _ _ => "set"
  | .bind _ _ => "bind"
  | .remove _ => "remove"

/-- The line of an operation, without a line end. -/
def text : Op → String
  | .addComponent path typeName => "add " ++ path.text ++ " : " ++ typeName
  | .addChannel channel typeName => "add " ++ channel.name ++ " : " ++ typeName
  | .setAttribute path key value =>
    "set " ++ path.member key ++ " = \"" ++
      String.ofList (Script.escape value.toList) ++ "\""
  | .bind port channel => "bind " ++ port.text ++ " " ++ channel.name
  | .remove path => "remove " ++ path.text

/-- What an operation creates. -/
def creates : Op → Option Target
  | .addComponent path _ => some (.component path)
  | .addChannel channel _ => some (.channel channel)
  | _ => none

/-- What must exist for an operation to apply. -/
def uses : Op → List Target
  | .addComponent _ _ | .addChannel _ _ => []
  | .setAttribute path _ _ | .remove path => [.component path]
  | .bind port channel => [.component port.component, .channel channel]

end Op

/-- The text of a script: one line per operation, each with a line feed. -/
def Script.text (script : Script) : String :=
  String.join (script.map fun op => op.text ++ "\n")

end Wiring
