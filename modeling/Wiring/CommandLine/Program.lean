import Wiring.CommandLine.Read
import Wiring.CommandLine.Run

/-!
# The program

Reads its command line, carries out the command, and ends with an exit code: 0 when
all went well, 1 after a problem, and 2 when the command line was wrong.
-/

namespace Wiring.CommandLine

/-- How a run of the program ends. -/
structure Ending where
  code : Nat
  printed : Printed
deriving DecidableEq, Repr

/-- Run the program; `input` reads the standard input. -/
def program {m : Type → Type} [Monad m] [Files m] [Stamps m] (input : m String)
    (environment : Environment) (words : List String) : m Ending := do
  match read environment words with
  | .error fault => return ⟨2, { errors := "error: " ++ fault.message ++ "\n\n" ++ usage }⟩
  | .ok .version => return ⟨0, { output := programName ++ " " ++ programVersion ++ "\n" }⟩
  | .ok .help => return ⟨0, { output := usage }⟩
  | .ok (.run globals command) =>
    let (outcome, printed) ← (perform input globals command).run.run {}
    match outcome with
    | .ok _ => return ⟨0, printed⟩
    | .error problem =>
      return ⟨1, { printed with errors := printed.errors ++ problem.report }⟩

end Wiring.CommandLine
