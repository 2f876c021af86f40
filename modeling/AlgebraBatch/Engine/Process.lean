import AlgebraBatch.Datum.Display
import AlgebraBatch.Engine.Output

/-!
# Engines run as processes

A local engine is started for each batch, reads the program from its standard input and prints the
answer. `ProcessEngine.output` says what the end of the process means: no output after a timeout,
and a fault if the process could not start, or failed before it began to answer.
-/

namespace AlgebraBatch.Engine

open AlgebraBatch.Text

structure ProcessEngine where
  command : List Datum := [.str "maxima", .str "--very-quiet"]
  timeout : Binary64 := .ofDecimal false 10 0
  /-- Sent before the program if it holds. -/
  preamble : Datum := .null
  deriving Repr

/-- How a process ends. -/
inductive ProcessEnd where
  | timedOut
  | notStarted (reason : String)
  | exited (status : Int) (stdout stderr : Option String)
  deriving DecidableEq, Repr

namespace ProcessEngine

/-- The preamble may be a value that cannot be written. -/
def inputFault? (engine : ProcessEngine) : Option Fault := engine.preamble.writingFault?

/-- What the process reads. -/
def input (engine : ProcessEngine) (program : String) : String :=
  if engine.preamble.holds then engine.preamble.display ++ "\n" ++ program ++ "\n"
  else program ++ "\n"

/-- A process that failed counts as an answer if it began to print one. -/
def answered (status : Int) (stdout : Option String) : Bool :=
  status == 0 || contains outputBegins.toList (stdout.getD "").toList

/-- The output of a process that has ended. -/
def output (engine : ProcessEngine) : ProcessEnd → Except Fault (Option String)
  | .timedOut => .ok none
  | .notStarted reason =>
    match engine.command with
    | program :: _ =>
      .error (program.writingFault?.getD (.engine (.notStarted program.debug reason)))
    | [] => .error .missingIndex
  | .exited status stdout stderr =>
    if answered status stdout then .ok stdout
    else .error (.engine (.exited status (stderr.getD "")))

end ProcessEngine

end AlgebraBatch.Engine
