import Wiring.CommandLine
import Wiring.Failure
import Wiring.Script
import Wiring.Text.Layout
import Wiring.Uuid

/-!
# What the program prints

The listing of a script, the line about the outcome of a request, and the report of
what made a command fail.
-/

namespace Wiring.CommandLine

open Wiring.Text

/-- Why a command failed. -/
inductive Problem where
  | failure (failure : Failure)
  /-- A script file could not be read. -/
  | unreadable (file : String) (fault : FileFault)
deriving DecidableEq, Repr

namespace Problem

/-- The headline of a report: the class of a failure, or the problem itself. -/
def headline : Problem → String
  | .failure cause => cause.kind.text
  | .unreadable file fault => "cannot read " ++ file ++ ": " ++ fault.text

/-- The causes below the headline. -/
def causes : Problem → List String
  | .failure cause => cause.chain
  | .unreadable _ _ => []

/-- The lines of the causes: a single one is indented, several are numbered from
zero. -/
def causeLines : List String → String
  | [cause] => "    " ++ hanging 4 cause ++ "\n"
  | causes =>
    String.join
      (causes.mapIdx fun i cause => padLeft 5 (toString i) ++ ": " ++ hanging 7 cause ++ "\n")

/-- The report of a problem. -/
def report (problem : Problem) : String :=
  "Error: " ++ problem.headline ++ "\n" ++
    match problem.causes with
    | [] => ""
    | causes => "\nCaused by:\n" ++ causeLines causes

end Problem

/-- A line under a headline. -/
def rule : String := String.ofList (List.replicate 40 '═')

/-- The operations of a script with their numbers, from one. -/
def listing (script : Script) : String :=
  let width := (toString script.length).length
  String.join
    (script.mapIdx fun i op =>
      "  " ++ padLeft width (toString (i + 1)) ++ "  " ++ op.text ++ "\n")

/-- The line about a request that did not fail. -/
def outcomeLine (operation target : String) (submitted : Bool) (request : Uuid) : String :=
  "  " ++ operation ++ " " ++ target ++
    (if submitted then ": applied" else ": nothing to do") ++
    " (request " ++ request.text ++ ")\n"

end Wiring.CommandLine
