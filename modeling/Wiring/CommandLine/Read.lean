import Wiring.CommandLine.Usage

/-!
# Reading a command line

A command line has two levels: the program with the options before the command, and
the command with what follows it.  Each level is read from left to right.  An option
may have its value behind an equals sign or in the next word, which then must not
look like an option itself; behind a letter the value may follow at once.  Two
hyphens alone end the options.  A request for help or for the version ends the
reading at once, and so does a word that is wrong by itself, such as an argument too
many: the one further left decides.

The options that all commands share may stand on either level.  The level of the
command counts before that of the program, both before the environment, and the
environment before the default.  The environment is looked at on each level that
does not give the option, so a bad value there is a fault unless both levels do.
-/

namespace Wiring.CommandLine

open Wiring.Text

/-- What has been read on a level. -/
structure Given where
  /-- The options with their values, in order; a switch has the empty value. -/
  values : List (String × String) := []
  /-- The arguments, in order. -/
  arguments : List String := []
deriving DecidableEq, Repr

namespace Given

/-- The values of an option. -/
def all (g : Given) (long : String) : List String :=
  (g.values.filter fun entry => entry.1 = long).map (·.2)

/-- Whether an option is given. -/
def has (g : Given) (long : String) : Bool := !(g.all long).isEmpty

/-- Give an option a value. -/
def add (g : Given) (switch : Switch) (value : String) : Except UsageFault Given :=
  if !switch.repeats && g.has switch.long then .error (.repeatedOption switch.long)
  else if switch.kind ≠ .none && !switch.kind.accepts value then
    .error (.badValue switch.long value)
  else .ok { g with values := g.values ++ [(switch.long, value)] }

/-- Give a command one more argument.  On the level of the program there are none. -/
def addArgument (g : Given) (level : Option CommandName) (text : String) :
    Except UsageFault Given :=
  match level with
  | none => .error (.unknownCommand text)
  | some name =>
    match name.argumentKind? g.arguments.length with
    | none => .error (.wrongArguments name)
    | some kind =>
      if kind.accepts text then .ok { g with arguments := g.arguments ++ [text] }
      else .error (.wrongArguments name)

/-- Begin an option: with a value or as a switch it is complete, otherwise its value
is due. -/
def beginOption (g : Given) (switch : Switch) (value? : Option String) :
    Except UsageFault (Given × Option Switch) :=
  match switch.kind, value? with
  | .none, some _ => .error (.unexpectedValue switch.long)
  | .none, none => (g.add switch "").map fun g => (g, none)
  | _, some value => (g.add switch value).map fun g => (g, none)
  | _, none => .ok (g, some switch)

end Given

/-- How a level ends. -/
inductive LevelEnd where
  | words
  | command (name : String) (rest : List String)
  | version
  | help
deriving DecidableEq, Repr

/-- A word, as an option or something else. -/
inductive Word where
  | stop
  /-- A name behind two hyphens, perhaps with a value. -/
  | long (name : String) (value? : Option String)
  /-- A letter behind one hyphen, and what follows it. -/
  | short (letter : Char) (rest : List Char)
  | plain (text : String)
deriving DecidableEq, Repr

/-- What a word is. -/
def Word.of (text : String) : Word :=
  match text.toList with
  | ['-', '-'] => .stop
  | '-' :: '-' :: name =>
    match cutFirst '=' name with
    | none => .long (String.ofList name) none
    | some (name, value) => .long (String.ofList name) (some (String.ofList value))
  | '-' :: letter :: rest => .short letter rest
  | _ => .plain text

/-- The value that stands at once behind a letter. -/
def attached (rest : List Char) : Option String :=
  match rest with
  | [] => none
  | '=' :: value => some (String.ofList value)
  | value => some (String.ofList value)

/-- Read a level, on which the value of `due?` comes first if there is such an option.
On the level of the program, which is that of no command, an argument is the command,
and the version may be asked for. -/
def readLevel (switches : List Switch) (level : Option CommandName) (due? : Option Switch)
    (g : Given) : List String → Except UsageFault (Given × LevelEnd)
  | [] =>
    match due? with
    | some switch => .error (.missingValue switch.long)
    | none => .ok (g, .words)
  | word :: rest =>
    match due?, Word.of word with
    | some switch, .plain value =>
      match g.add switch value with
      | .error fault => .error fault
      | .ok g => readLevel switches level none g rest
    | some switch, _ => .error (.missingValue switch.long)
    | none, .plain text =>
      if level.isNone then .ok (g, .command text rest)
      else
        match g.addArgument level text with
        | .error fault => .error fault
        | .ok g => readLevel switches level none g rest
    | none, .stop =>
      (rest.foldlM (fun given text => Given.addArgument given level text) g).map fun g => (g, .words)
    | none, .long name value? =>
      match switches.find? fun switch => switch.long = name with
      | none =>
        if name = "help" && value?.isNone then .ok (g, .help)
        else if level.isNone && name = "version" && value?.isNone then .ok (g, .version)
        else .error (.unknownOption word)
      | some switch =>
        match g.beginOption switch value? with
        | .error fault => .error fault
        | .ok (g, due?) => readLevel switches level due? g rest
    | none, .short letter more =>
      match switches.find? fun switch => switch.short? = some letter with
      | none =>
        if letter = 'h' then .ok (g, .help)
        else if level.isNone && letter = 'V' then .ok (g, .version)
        else .error (.unknownOption word)
      | some switch =>
        match g.beginOption switch (attached more) with
        | .error fault => .error fault
        | .ok (g, due?) => readLevel switches level due? g rest

/-! ## Environment and defaults -/

/-- The value of a variable of the environment. -/
abbrev Environment := String → Option String

/-- Check the environment where it stands in for options that a level lacks. -/
def checkEnvironment (environment : Environment) (g : Given) :
    List Switch → Except UsageFault Unit
  | [] => .ok ()
  | switch :: rest =>
    match if g.has switch.long then none else switch.fallback? >>= environment with
    | none => checkEnvironment environment g rest
    | some value =>
      if switch.kind.accepts value then checkEnvironment environment g rest
      else .error (.badValue switch.long value)

/-- The value of an option: from the level of the command, of the program, or the
environment. -/
def valueOf (environment : Environment) (root sub : Given) (long : String) : Option String :=
  let fallback? := (globalSwitches.find? fun switch => switch.long = long) >>= Switch.fallback?
  ((sub.all long).head?.or (root.all long).head?).or (fallback? >>= environment)

/-- The options that all commands share. -/
def globalsOf (environment : Environment) (root sub : Given) : Globals :=
  let value := valueOf environment root sub
  let default : Globals := {}
  { settings? := value "config"
    node? := value "node"
    model := (value "model").getD default.model
    spool := (value "spool").getD default.spool
    events := root.has "events" || sub.has "events" }

/-! ## Commands -/

/-- The description of a component. -/
def descriptionOf (g : Given) (typeName id : String) : Description :=
  { typeName, id
    attributes := (g.all "attr").filterMap cutPair
    specs := g.all "binding"
    destinations := (g.all "port").filterMap cutPair }

/-- Who asks for a start: the option, the user that the environment names, or the
program itself. -/
def requesterOf (environment : Environment) (g : Given) : Requester :=
  { name := (((g.all "requester").head?.or (environment "USER"))).getD programName
    household? := (g.all "household").head? }

/-- The command of a name with what has been read on its level. -/
def commandOf (environment : Environment) (name : CommandName) (g : Given) :
    Except UsageFault Command :=
  match name, g.arguments with
  | .plan, [typeName, id] => .ok (.plan (descriptionOf g typeName id))
  | .start, [typeName, id] =>
    .ok (.start (descriptionOf g typeName id) (requesterOf environment g))
  | .stop, id :: ids => .ok (.stop (id :: ids))
  | .stopType, typeName :: types => .ok (.stopType (typeName :: types))
  | .set, [id, key, value] => .ok (.set id key value)
  | .push, [file] => .ok (.push file)
  | .check, [file] => .ok (.check file (g.has "reorder"))
  | _, _ => .error (.wrongArguments name)

/-- Read the level of a command. -/
def readCommand (environment : Environment) (root : Given) (name : CommandName)
    (words : List String) : Except UsageFault Wish := do
  let switches := name.switches ++ globalSwitches
  let (sub, levelEnd) ← readLevel switches name none {} words
  if levelEnd = .help then return .help
  checkEnvironment environment sub switches
  let command ← commandOf environment name sub
  checkEnvironment environment root globalSwitches
  return .run (globalsOf environment root sub) command

/-- The word that asks for help in place of a command. -/
def helpWord : String := "help"

/-- Read what follows the word that asks for help: at most one command, or that word
again. -/
def readTopic : List String → Except UsageFault Wish
  | [] => .ok .help
  | topic :: rest =>
    if topic ≠ helpWord && (CommandName.ofText? topic).isNone then .error (.unknownCommand topic)
    else
      match rest with
      | [] => .ok .help
      | next :: _ => .error (.unknownCommand next)

/-- Read a command line. -/
def read (environment : Environment) (words : List String) : Except UsageFault Wish := do
  let (root, levelEnd) ← readLevel globalSwitches none none {} words
  match levelEnd with
  | .words => throw .noCommand
  | .version => return .version
  | .help => return .help
  | .command name rest =>
    match CommandName.ofText? name with
    | some name => readCommand environment root name rest
    | none => if name = helpWord then readTopic rest else throw (.unknownCommand name)

end Wiring.CommandLine
