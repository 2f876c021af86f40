import AlgebraBatch.Batch.OptionsFile
import AlgebraBatch.CommandLine.Arguments
import AlgebraBatch.CommandLine.Files
import AlgebraBatch.Engine.Connector
import AlgebraBatch.Report.Basic
import AlgebraBatch.Report.StatementFile

/-!
# Running the command line

`run` is the whole program as a function: from the arguments, the files, the clock and what the
outside world does, it computes what is written to the two outputs, what is sent to an engine, and
the exit status. The library's own reports and bad values are explained on the error output; any
other fault ends the program.
-/

namespace AlgebraBatch.CommandLine

open AlgebraBatch.Batch AlgebraBatch.Engine AlgebraBatch.Text

/-- What can stop the program. -/
inductive Failure where
  | fault (f : Fault)
  | file (f : FileFault)
  deriving DecidableEq, Repr

structure Result where
  /-- The exit status, unless a failure that nothing explains ends the program. -/
  exit : Except Failure Nat
  stdout : String := ""
  stderr : String := ""
  call : Option Call := none

/-- The line that explains a failure, if the program explains it. -/
def explanation? : Failure → Option String
  | .file f => some ("Error: " ++ f.message ++ "\n")
  | .fault (.engine f) => some ("Engine error: " ++ f.message ++ "\n")
  | .fault f =>
    let explained := match f with
      | .badValue _ => true
      | .numeral _ => true
      | f => f.isReport
    if explained then f.message?.map fun m => "Error: " ++ m ++ "\n" else none

/-- A line for a statement that cannot be evaluated. -/
def invalidLine (s : Statement) : String :=
  "  [" ++ s.context ++ "] " ++ joinWith " " (s.allErrors.map Datum.display) ++ "\n"

/-- The lines about the statements that made a batch invalid. -/
def invalidLines (statements : List Statement) : Failure → String
  | .fault .invalidBatch =>
    String.join ((statements.filter fun s => !s.valid).map invalidLine)
  | _ => ""

/-- The result of a failure, of which the statements were read. -/
def failed (statements : List Statement) (failure : Failure) : Result :=
  match explanation? failure with
  | some line => { exit := .ok 1, stderr := line ++ invalidLines statements failure }
  | none => { exit := .error failure }

/-- Events below this rank are not logged. -/
def leastRank (verbosity : Nat) : Nat := Level.warning.rank - 10 * min verbosity 2

def log (verbosity : Nat) (connector : Connector) (events : List Event) : String :=
  String.join ((events.filter fun e => leastRank verbosity ≤ e.level.rank).map
    (Event.logLine connector.name))

/-- The engine options that the arguments ask for. -/
def readOptions (files : Files) : Option String → Except Failure Options
  | none => .ok {}
  | some "" => .ok {}
  | some path => do
    let text ← (files.read path).mapError .file
    (Options.ofFile path text).mapError .fault

/-- The settings of a connector in a file. -/
def readSettings (path text : String) : Except Fault Datum :=
  match Yaml.read (fileText text) with
  | .ok d => .ok d.orEmptyMap
  | .error .malformed => .error (.badValue ("could not read settings from " ++ path))
  | .error (.fault f) => .error f

/-- The connector that the arguments ask for. -/
def readConnector (files : Files) : Option String → Except Failure Connector
  | none => (Connector.ofSettings .null).mapError .fault
  | some path => do
    let text ← (files.read path).mapError .file
    let settings ← (readSettings path text).mapError .fault
    (Connector.ofSettings settings).mapError .fault

/-- The connector and the session of a run. The statements are numbered in order. -/
def prepare (files : Files) (clock : Int) (args : Arguments) (statements : List Statement) :
    Except Failure (Connector × Session) := do
  let options ← readOptions files args.options
  let connector ← readConnector files args.connector
  let candidates := (List.range statements.length).map Sum.inl
  let seed := args.seed.elim Datum.null Datum.int
  let session ← (Session.make candidates (.inl options) seed clock).mapError .fault
  .ok (connector, session)

/-- Writes the report of an evaluation that came to an end. -/
def conclude (args : Arguments) (e : Session.Evaluation) (completed : Bool) : Result :=
  match (Report.ofSession e.session e.store completed).bind fun report =>
      Report.write (.str args.format.name) report.toDatum with
  | .error fault => { exit := .error (.fault fault) }
  | .ok text =>
    { exit := .ok (if completed then 0 else 1), stdout := text,
      stderr := if completed then "" else "Error: " ++ timedOutError ++ "\n" }

/-- Evaluates statements and reports on them. -/
def evaluate (files : Files) (host : Host) (clock : Int) (args : Arguments)
    (statements : List Statement) : Result :=
  match prepare files clock args statements with
  | .error failure => failed statements failure
  | .ok (connector, session) =>
    let store := Store.ofList (statements.map .statement)
    let e := session.instantiate store fun program => (connector.call program host).output
    let result := match e.result with
      | .error fault => failed statements (.fault fault)
      | .ok completed => conclude args e completed
    { result with
      stderr := log args.verbosity connector e.events ++ result.stderr
      call := e.asked.map fun program => connector.call program host }

/-- Runs the program. -/
def run (files : Files) (host : Host) (clock : Int) (argv : List String) : Result :=
  match Arguments.parse argv with
  | .error .help => { exit := .ok 0, stdout := helpText }
  | .error (.misuse message) => { exit := .ok 2, stderr := misuseText message }
  | .ok args =>
    match files.read (tidyPath args.statements) with
    | .error (.missing _) =>
      { exit := .ok 1, stderr := "Error: file not found: " ++ args.statements ++ "\n" }
    | .error fault => { exit := .error (.file fault) }
    | .ok text =>
      match StatementFile.read (baseName args.statements) text with
      | .error fault => { exit := .error (.fault fault) }
      | .ok statements => evaluate files host clock args statements

end AlgebraBatch.CommandLine
