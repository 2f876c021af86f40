import AlgebraBatch.CommandLine.Run
import AlgebraBatch.Json.Reader

/-!
# The command

The program opens no files and starts no engines itself. One line of JSON on the standard input
brings what a run needs from outside: the texts of the `files` by their paths, the `clock` in
seconds, and the `output` of the engine, which is missing if the engine ran out of time.
-/

namespace AlgebraBatch.CommandLine

open AlgebraBatch.Engine

def filesOf (job : Datum) : Files :=
  match job.field? "files" with
  | some (.map entries) =>
    entries.filterMap fun (path, d) =>
      match path, d with
      | .str path, .str text => some (path, text)
      | _, _ => none
  | _ => []

/-- An engine that gives the same output however often it is asked. -/
def hostOf (job : Datum) : Host :=
  match (job.field? "output").bind Datum.text? with
  | some output =>
    { processEnd := .exited 0 (some output) none, response := fun _ => .answered 200 (some output) }
  | none => { processEnd := .timedOut, response := fun _ => .timedOut }

def clockOf (job : Datum) : Int := ((job.field? "clock").bind Datum.integer?).getD 0

/-- The result of a run for a job that was read from a line. -/
def runJob (line : String) (argv : List String) : Result :=
  let job := (Json.read? line).getD .null
  run (filesOf job) (hostOf job) (clockOf job) argv

end AlgebraBatch.CommandLine

open AlgebraBatch.CommandLine in
def main (argv : List String) : IO UInt32 := do
  let line ← (← IO.getStdin).getLine
  let result := runJob line argv
  IO.print result.stdout
  IO.eprint result.stderr
  match result.exit with
  | .ok status => return status.toUInt32
  | .error _ => return 1
