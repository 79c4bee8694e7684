import Wiring.Requester

/-!
# Command lines

What can be asked for on the command line, after it has been read: a command, and
the options that all commands share.
-/

namespace Wiring.CommandLine

/-- The name of the program. -/
def programName : String := "hlk"

/-- The version of the program. -/
def programVersion : String := "0.1.0"

/-- The settings file that is used when it is there and no other is named. -/
def defaultSettingsFile : String := "hublink.yaml"

/-- The options that all commands share. -/
structure Globals where
  settings? : Option String := none
  /-- The node to make scripts for, in place of the one in the settings. -/
  node? : Option String := none
  model : String := "model.json"
  spool : String := "spool"
  events : Bool := false
deriving DecidableEq, Repr

/-- The description of a component to start. -/
structure Description where
  typeName : String
  id : String
  /-- Its attributes, in the order given. -/
  attributes : List (String × String)
  specs : List String
  destinations : List (String × String)
deriving DecidableEq, Repr

/-- What to do. -/
inductive Command where
  | plan (component : Description)
  | start (component : Description) (requester : Requester)
  | stop (ids : List String)
  | stopType (types : List String)
  | set (id key value : String)
  /-- Submit a script file, or with the name `-` the standard input. -/
  | push (file : String)
  /-- Check a script file against the model, perhaps after putting it in order. -/
  | check (file : String) (reorder : Bool)
deriving DecidableEq, Repr

/-- What a command line asks for. -/
inductive Wish where
  | run (globals : Globals) (command : Command)
  | version
  | help
deriving DecidableEq, Repr

end Wiring.CommandLine
