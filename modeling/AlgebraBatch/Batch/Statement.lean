import AlgebraBatch.Batch.Usage
import AlgebraBatch.Content.Printer
import AlgebraBatch.Datum.Display

/-!
# Statements

A statement is source text that is parsed when the statement is made. One that does not parse is
kept and is not valid. A plain statement only hears of its status; a value statement also gets the
value that it evaluates to, and a display statement its typeset form as well. A new status clears
what an earlier batch brought.
-/

namespace AlgebraBatch

open AlgebraBatch.Text

inductive StatementKind where
  | plain
  | value
  | display
  deriving DecidableEq, Repr

structure Statement where
  kind : StatementKind
  /-- The source as it was given; only a text can be valid. -/
  source : Datum
  context : String
  expr : Option Expr
  parseErrors : List String
  errors : List Datum := []
  notes : List Datum := []
  evaluated : Bool := false
  value : Option Content := none
  /-- The typeset form; null without one. -/
  presentation : Datum := .null
  deriving Repr

def StatementKind.typeName : StatementKind → String
  | plain => "CasStatement"
  | value => "ValueStatement"
  | display => "DisplayStatement"

namespace Statement

/-- The expression of a source. -/
def parseSource : Datum → Except Fault Expr
  | .str s => (Syntax.parseExpr s).mapError (·.toFault)
  | d => .error (Syntax.notText d.typeName)

/-- Whether a source has an expression, and what the grammar says if it has none. Any other fault is
passed on. -/
def validateSource (source : Datum) : Except Fault (Bool × String) :=
  match parseSource source with
  | .ok _ => .ok (true, "success")
  | .error (.syntaxError message _) => .ok (false, message)
  | .error f => .error f

/-- A statement from its source. A source that the grammar rejects gives a statement that is not
valid; any other fault is passed on. -/
def make (kind : StatementKind) (source : Datum) (context : String) : Except Fault Statement :=
  match parseSource source with
  | .ok e => .ok { kind, source, context, expr := some e, parseErrors := [] }
  | .error (.syntaxError message _) =>
    .ok { kind, source, context, expr := none, parseErrors := [message] }
  | .error f => .error f

/-- A statement whose source is what is printed for a tree. -/
def ofTree (kind : StatementKind) (tree : Content) (context : String) : Except Fault Statement := do
  make kind (← tree.print) context

def valid (s : Statement) : Bool := s.expr.isSome

/-- What the engine is to evaluate: the expression, or the source of a statement without one. -/
def form (s : Statement) : Datum :=
  match s.expr with
  | some e => .str e.text
  | none => s.source

/-- The name that the statement assigns to, or nothing. -/
def key (s : Statement) : String :=
  (s.expr.bind Usage.assigned?).getD ""

def collectsValue (s : Statement) : Bool := s.kind != .plain

def collectsPresentation (s : Statement) : Bool := s.kind == .display

def usage (s : Statement) (update : Datum) : Except Fault Datum := Usage.merge s.expr update

/-- The errors of parsing and then those of the last batch. -/
def allErrors (s : Statement) : List Datum := s.parseErrors.map .str ++ s.errors

/-- What is printed for the value; null without one. -/
def valueText (s : Statement) : Except Fault Datum :=
  match s.value with
  | none => .ok .null
  | some c => c.print

def correctlyEvaluated (s : Statement) : Bool :=
  s.evaluated && s.value.isSome && s.errors.isEmpty

/-- Takes the status of a batch. What cannot be listed is a fault, and then the parts that come
before it have been taken. -/
def setStatus (s : Statement) (errors notes : Datum) : Statement × Option Fault :=
  match errors.elements? with
  | none => (s, some .wrongType)
  | some errors =>
    match notes.elements? with
    | none => ({ s with errors }, some .wrongType)
    | some notes =>
      ({ s with errors, notes, evaluated := true, value := none, presentation := .null }, none)

/-- Takes a value; null takes away the one that there is. -/
def setValue (s : Statement) : Content → Statement
  | .datum .null => { s with value := none }
  | c => { s with value := some c }

def setPresentation (s : Statement) (presentation : Datum) : Statement :=
  { s with presentation }

def debug (s : Statement) : String :=
  s.kind.typeName ++ "(" ++ s.source.debug ++ ", context=" ++ quoted s.context ++ ")"

end Statement

end AlgebraBatch
