import AlgebraBatch.Batch.Statement

/-!
# Requests

Anything that takes part in a batch is a request: a statement, or a probe. A probe has fixed answers
to what a batch asks of it and records everything that it is given. What a request can be given
beyond its status depends on what it collects.
-/

namespace AlgebraBatch

structure Probe where
  form : String
  context : String
  key : String
  valid : Bool
  collectsValue : Bool
  collectsPresentation : Bool
  statuses : List (List Datum × List Datum) := []
  values : List Content := []
  presentations : List Datum := []
  deriving Repr, Inhabited

namespace Probe

def usage (p : Probe) (update : Datum) : Except Fault Datum :=
  if p.key == "" then
    match update with
    | .null => .ok (.map [])
    | d => .ok d
  else do
    let entries := Usage.withMember "write" (← Usage.entriesOf update)
    (Usage.mark "write" p.key entries).map .map

def setStatus (p : Probe) (errors notes : Datum) : Probe × Option Fault :=
  match errors.elements?, notes.elements? with
  | some errors, some notes => ({ p with statuses := p.statuses ++ [(errors, notes)] }, none)
  | _, _ => (p, some .wrongType)

end Probe

inductive Request where
  | statement (s : Statement)
  | probe (p : Probe)
  deriving Repr

instance : Inhabited Request := ⟨.probe default⟩

namespace Request

/-- The text that the engine is to evaluate. -/
def form : Request → String
  | statement s => s.form.display
  | probe p => p.form

def context : Request → String
  | statement s => s.context
  | probe p => p.context

def key : Request → String
  | statement s => s.key
  | probe p => p.key

def valid : Request → Bool
  | statement s => s.valid
  | probe p => p.valid

def collectsValue : Request → Bool
  | statement s => s.collectsValue
  | probe p => p.collectsValue

def collectsPresentation : Request → Bool
  | statement s => s.collectsPresentation
  | probe p => p.collectsPresentation

def usage (r : Request) (update : Datum) : Except Fault Datum :=
  match r with
  | statement s => s.usage update
  | probe p => p.usage update

def setStatus (r : Request) (errors notes : Datum) : Request × Option Fault :=
  match r with
  | statement s =>
    let (s, fault) := s.setStatus errors notes
    (.statement s, fault)
  | probe p =>
    let (p, fault) := p.setStatus errors notes
    (.probe p, fault)

def setValue (r : Request) (value : Content) : Request :=
  match r with
  | statement s => .statement (s.setValue value)
  | probe p => .probe { p with values := p.values ++ [value] }

def setPresentation (r : Request) (presentation : Datum) : Request :=
  match r with
  | statement s => .statement (s.setPresentation presentation)
  | probe p => .probe { p with presentations := p.presentations ++ [presentation] }

end Request

end AlgebraBatch
