import Wiring.CommandLine
import Wiring.Text.Cut

/-!
# Options and arguments

Which options and arguments each command takes, and what can be wrong with those
that are given.
-/

namespace Wiring.CommandLine

open Wiring.Text

/-- What the value of an option must be like. -/
inductive ValueKind where
  /-- There is no value: the option is a switch. -/
  | none
  | text
  /-- A path, which is not empty. -/
  | path
  /-- A key, which is not empty, and a value with an equals sign between them. -/
  | pair
deriving DecidableEq, Repr

/-- An option. -/
structure Switch where
  long : String
  short? : Option Char := .none
  kind : ValueKind := .text
  repeats : Bool := false
  fallback? : Option String := .none
deriving DecidableEq, Repr

/-- The options that all commands share, which may stand before the command too. -/
def globalSwitches : List Switch :=
  [{ long := "config", kind := .path, fallback? := some "HUBLINK_CONFIG" },
   { long := "node", fallback? := some "HUBLINK_NODE" },
   { long := "model", kind := .path, fallback? := some "HUBLINK_MODEL" },
   { long := "spool", kind := .path, fallback? := some "HUBLINK_SPOOL" },
   { long := "events", kind := .none }]

/-- The options that describe a component. -/
def descriptionSwitches : List Switch :=
  [{ long := "attr", short? := some 'a', kind := .pair, repeats := true },
   { long := "binding", short? := some 'b', repeats := true },
   { long := "port", short? := some 'p', kind := .pair, repeats := true }]

/-- The names of the commands. -/
inductive CommandName where
  | plan
  | start
  | stop
  | stopType
  | set
  | push
  | check
deriving DecidableEq, Repr

namespace CommandName

/-- All commands. -/
def all : List CommandName := [.plan, .start, .stop, .stopType, .set, .push, .check]

/-- The name of a command as it is written. -/
def text : CommandName → String
  | .plan => "plan"
  | .start => "start"
  | .stop => "stop"
  | .stopType => "stop-type"
  | .set => "set"
  | .push => "push"
  | .check => "check"

/-- The command of a name. -/
def ofText? (name : String) : Option CommandName := all.find? fun command => command.text = name

/-- The options of a command besides those that all share. -/
def switches : CommandName → List Switch
  | .plan => descriptionSwitches
  | .start =>
    descriptionSwitches ++
      [{ long := "requester", fallback? := some "USER" }, { long := "household" }]
  | .check => [{ long := "reorder", kind := .none }]
  | .stop | .stopType | .set | .push => []

/-- What the argument at an index must be like, if the command takes so many. -/
def argumentKind? : CommandName → Nat → Option ValueKind
  | .plan, index | .start, index => if index < 2 then some .text else .none
  | .stop, _ | .stopType, _ => some .text
  | .set, index => if index < 3 then some .text else .none
  | .push, index | .check, index => if index < 1 then some .path else .none

/-- What the arguments of a command are. -/
def arguments : CommandName → String
  | .plan | .start => "<TYPE> <ID>"
  | .stop => "<ID>..."
  | .stopType => "<TYPE>..."
  | .set => "<ID> <ATTRIBUTE> <VALUE>"
  | .push | .check => "<FILE>"

end CommandName

/-- What is wrong with a command line. -/
inductive UsageFault where
  /-- There is no command. -/
  | noCommand
  /-- There is no command of that name. -/
  | unknownCommand (name : String)
  /-- There is no such option. -/
  | unknownOption (option : String)
  | missingValue (option : String)
  | unexpectedValue (option : String)
  /-- The value of an option is not of its kind. -/
  | badValue (option value : String)
  | repeatedOption (option : String)
  | wrongArguments (command : CommandName)
deriving DecidableEq, Repr

/-- The message about a fault of a command line. -/
def UsageFault.message : UsageFault → String
  | .noCommand => "a command is required"
  | .unknownCommand name => "unknown command \"" ++ name ++ "\""
  | .unknownOption option => "unknown option " ++ option
  | .missingValue option => "option --" ++ option ++ " needs a value"
  | .unexpectedValue option => "option --" ++ option ++ " takes no value"
  | .badValue option value => "\"" ++ value ++ "\" is no value for --" ++ option
  | .repeatedOption option => "option --" ++ option ++ " is given twice"
  | .wrongArguments command => command.text ++ " takes " ++ command.arguments

/-- How the program is used. -/
def usage : String :=
  "Usage: " ++ programName ++ " [OPTIONS] <COMMAND>\n\nCommands:\n" ++
    String.join
      (CommandName.all.map fun command =>
        "  " ++ command.text ++ " " ++ command.arguments ++ "\n")

/-- Cut a pair at its first equals sign. -/
def cutPair (value : String) : Option (String × String) :=
  match cutFirst '=' value.toList with
  | none => none
  | some (key, value) =>
    if key = [] then none else some (String.ofList key, String.ofList value)

/-- Whether a text can be the value of an option. -/
def ValueKind.accepts : ValueKind → String → Bool
  | .none, _ => false
  | .text, _ => true
  | .path, value => value ≠ ""
  | .pair, value => (cutPair value).isSome

end Wiring.CommandLine
