import Wiring.Component.Draft
import Wiring.CommandLine.Report
import Wiring.Event.Document
import Wiring.Linker.Serve
import Wiring.Settings.Yaml
import Wiring.Spool

/-!
# Carrying out commands

A command works on the files that its options name: it reads the settings and the
model, and hands its scripts to the spool.  Events are printed to the output as JSON
lines before the outcome of their request, outcomes and problems to the error output.
The first problem ends a command.
-/

namespace Wiring.CommandLine

/-- What has been printed. -/
structure Printed where
  output : String := ""
  errors : String := ""
deriving DecidableEq, Repr

/-- Work that may fail with a problem and prints on the way. -/
abbrev Work (m : Type → Type) := ExceptT Problem (StateT Printed m)

section

variable {m : Type → Type} [Monad m]

/-- Print a text. -/
def print (text : String) : Work m Unit :=
  modify fun printed => { printed with output := printed.output ++ text }

/-- Print a text to the error output. -/
def printError (text : String) : Work m Unit :=
  modify fun printed => { printed with errors := printed.errors ++ text }

/-- Go on with a value, or fail. -/
def orFail {α : Type} : Except Failure α → Work m α
  | .ok a => pure a
  | .error failure => throw (.failure failure)

variable [Files m]

/-- Read a settings file. -/
def readSettings (path : String) : Work m Settings := do
  match ← (Files.read path : m _) with
  | .error fault => throw (.failure (.file path fault))
  | .ok text => orFail (Settings.read text)

/-- The settings of a command: those of the file named, of the usual file when it is
there, or the defaults; the node may be another one. -/
def settingsOf (globals : Globals) : Work m Settings := do
  let settings ←
    match globals.settings? with
    | some path => readSettings path
    | none => do
      if ← (Files.isThere defaultSettingsFile : m _) then readSettings defaultSettingsFile
      else pure {}
  let settings := { settings with nodeName := globals.node?.getD settings.nodeName }
  orFail settings.validate
  return settings

/-- The request that a description makes. -/
def requested (settings : Settings) (d : Description) : Except Failure Component :=
  let draft : Draft := { typeName := d.typeName, id := d.id }
  let draft := draft.withPrefix settings.bindingPrefix
  let draft := d.attributes.foldl (fun draft (key, value) => draft.withAttribute key value) draft
  let draft := d.specs.foldl Draft.withSpec draft
  let draft :=
    d.destinations.foldl (fun draft (port, token) => draft.withDestination port token) draft
  draft.finish

/-! ## Sessions -/

/-- A linker that works on the spool. -/
structure Session where
  spool : Spool
  linker : Linker Model
  events : Bool

/-- Open a session with the options of a command. -/
def openSession (globals : Globals) : Work m Session := do
  let settings ← settingsOf globals
  let spool ← orFail (← (Spool.openOn globals.model globals.spool : m _))
  return { spool, linker := { settings, engine := spool.model }, events := globals.events }

/-- Tell how many scripts wait in the spool, if that can be told. -/
def reportSpool (s : Session) : Work m Unit := do
  match ← (s.spool.waiting : m _) with
  | .error _ => pure ()
  | .ok scripts =>
    printError ("  " ++ toString scripts.length ++ " script(s) waiting in " ++
      s.spool.directory ++ "\n")

variable [Stamps m]

/-- Give a script to the spool. -/
def decide (script : String) : StateT Spool m Verdict := fun spool => do
  let (accepted, spool) ← spool.submit script
  return (if accepted then .accept else .reject, spool)

/-- Print events with the time. -/
def printEvents (request : Uuid) (events : List (Event Nat)) : Work m Unit :=
  events.forM fun event => do
    let time ← (Stamps.now : m _)
    print (Document.line (⟨{ event with request }, time⟩ : DatedEvent) ++ "\n")

/-- Serve a request, print its events, and tell its outcome. -/
def serve (s : Session) (request : Request) (operation target : String) :
    Work m (Bool × Session) := do
  let id ← (Stamps.fresh : m _)
  let task := s.linker.tasks.length
  let (linker, spool) ← ((s.linker.ask [request]).serve Model.engine decide s.spool : m _)
  let session := { s with linker, spool }
  if s.events then printEvents id (linker.events.drop s.linker.events.length)
  let submitted ← orFail ((linker.result? task).getD (.ok false))
  printError (outcomeLine operation target submitted id)
  return (submitted, session)

/-- Serve a request, and report on the spool if something was submitted. -/
def serveAndReport (s : Session) (request : Request) (operation target : String) :
    Work m Unit := do
  let (submitted, s) ← serve s request operation target
  if submitted then reportSpool s

/-! ## Commands -/

/-- Show the script that would start a component. -/
def plan (s : Session) (d : Description) : Work m Unit := do
  let synthesis := s.linker.synthesis Model.engine
  let component ← orFail (requested synthesis.settings d)
  let path := component.path synthesis.node
  print ("Start plan for: " ++ path.text ++ " (" ++ component.typeName ++ ")\n" ++ rule ++ "\n")
  match ← orFail (s.linker.plan Model.engine component).1 with
  | none => print ("  " ++ path.text ++ " is already running, nothing would be submitted.\n")
  | some script =>
    print (listing script ++ "\n  " ++ toString script.length ++
      " operation(s) would be submitted.\n")

/-- Stop components one after another, up to the first problem. -/
def stopAll (s : Session) : List String → Work m Session
  | [] => pure s
  | id :: rest => do
    let (_, s) ← serve s (.stop id) "stop" id
    stopAll s rest

/-- Check a script file against the model. -/
def check (globals : Globals) (file : String) (inOrder : Bool) : Work m Unit := do
  let text ←
    match ← (Files.read file : m _) with
    | .error fault => throw (.failure (.file file fault))
    | .ok text => pure text
  let script ← orFail (Script.parse text)
  let script := if inOrder then script.reorder else script
  let model ← orFail (← (Model.load globals.model : m _))
  orFail (script.check model)
  print (listing script)
  printError ("  " ++ file ++ ": " ++ toString script.length ++ " operation(s), order OK\n")

/-- The text of a script file; `input` reads the standard input. -/
def scriptText (input : m String) (file : String) : Work m String := do
  if file = "-" then input
  else
    match ← (Files.read file : m _) with
    | .error fault => throw (.unreadable file fault)
    | .ok text => return text

/-- Carry out a command. -/
def perform (input : m String) (globals : Globals) : Command → Work m Unit
  | .plan component => do plan (← openSession globals) component
  | .start component _ => do
    let s ← openSession globals
    let settings := s.linker.settings
    let c ← orFail (requested settings component)
    serveAndReport s (.start c) "start" (c.path settings.nodeName).text
  | .stop ids => do reportSpool (← stopAll (← openSession globals) ids)
  | .stopType types => do
    serveAndReport (← openSession globals) (.stopByType types) "stop" (", ".intercalate types)
  | .set id key value => do
    let s ← openSession globals
    let (_, s) ← serve s (.update id key value) "update" (id ++ "." ++ key)
    reportSpool s
  | .push file => do
    let text ← scriptText input file
    serveAndReport (← openSession globals) (.push text) "push" file
  | .check file inOrder => check globals file inOrder

end

end Wiring.CommandLine
