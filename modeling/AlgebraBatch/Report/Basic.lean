import AlgebraBatch.Batch.Session
import AlgebraBatch.Report.Template

/-!
# Reports

A report tells what came of a session: its seed, its status, and a row for each statement. It is
written by a template for people, or as JSON or YAML.
-/

namespace AlgebraBatch

open AlgebraBatch.Batch AlgebraBatch.Text

namespace Report

inductive Status where
  | ok
  | errors
  | timeout
  deriving DecidableEq, Repr

namespace Status

def name : Status → String
  | ok => "ok"
  | errors => "errors"
  | timeout => "timeout"

/-- The status of a session that was evaluated to the end or ran out of time. -/
def of (session : Session) (completed : Bool) : Status :=
  if !completed then timeout else if session.errors.holds then errors else ok

end Status

/-- What is reported of one statement. -/
structure Row where
  context : String
  source : Datum
  value : Datum
  presentation : Datum
  errors : List Datum
  notes : List Datum
  deriving Repr

namespace Row

def ofStatement (s : Statement) : Except Fault Row := do
  let value ← s.valueText
  .ok { context := s.context, source := s.source, value, presentation := s.presentation,
        errors := s.allErrors, notes := s.notes }

/-- A row for a request; only statements are reported. -/
def ofRequest? : Request → Option (Except Fault Row)
  | .statement s => some (ofStatement s)
  | .probe _ => none

def toDatum (row : Row) : Datum :=
  .map [(.str "context", .str row.context), (.str "source", row.source),
    (.str "value", row.value), (.str "presentation", row.presentation),
    (.str "errors", .list row.errors), (.str "answernotes", .list row.notes)]

end Row

end Report

structure Report where
  seed : Int
  status : Report.Status
  rows : List Report.Row
  deriving Repr

namespace Report

/-- The report of a session after its evaluation. -/
def ofSession (session : Session) (store : Store) (completed : Bool) : Except Fault Report := do
  let rows ← ((session.requests store).filterMap Row.ofRequest?).mapM id
  .ok { seed := session.seed, status := .of session completed, rows }

def toDatum (report : Report) : Datum :=
  .map [(.str "seed", .int report.seed), (.str "status", .str report.status.name),
    (.str "statements", .list (report.rows.map Row.toDatum))]

/-- A block with one line, which begins as given. -/
def line (name lead : String) (value : Template) : Template :=
  .block name [.text lead, value, .text "\n"]

/-- A line for each statement, the value, the typeset form, the errors and the notes on lines below
it, and the status at the end. -/
def template : List Template :=
  [.block "statements" [
      .text "[", .field "context", .text "] ", .field "source", .text "\n",
      line "value" "    = " (.field "value"),
      line "presentation" "    tex: " (.field "presentation"),
      line "errors" "    error: " .item,
      line "answernotes" "    note: " .item],
    .field "status", .text "\n"]

/-- The text with exactly one line feed at its end. -/
def endLine (s : String) : String :=
  String.ofList (dropRightWhile (· == '\n') s.toList) ++ "\n"

/-- Writes a report, or anything in its place, in the named format. -/
def write (format : Datum) (report : Datum) : Except Fault String :=
  match format with
  | .str "text" => Template.renderAll [report] template
  | _ => (Wire.serialize format true (.datum report)).map endLine

end Report

end AlgebraBatch
