import AlgebraBatch.Batch.Program
import AlgebraBatch.Datum.Display

/-!
# Events of a batch

While a batch is evaluated it reports what happens. An event has a level of importance and is logged
as one line, under the name of the part that reports it.
-/

namespace AlgebraBatch.Batch

inductive Level where
  | debug
  | info
  | warning
  deriving DecidableEq, Repr

namespace Level

def name : Level → String
  | debug => "DEBUG"
  | info => "INFO"
  | warning => "WARNING"

/-- The importance of a level. -/
def rank : Level → Nat
  | debug => 10
  | info => 20
  | warning => 30

end Level

inductive Event where
  | compiled (program : Program)
  | engineTimedOut
  | engineAnswered
  | unreadable (key : Datum) (message : String)
  | timedOut (statements : Nat)
  | evaluated (statements errors : Nat)
  deriving Repr

namespace Event

def level : Event → Level
  | compiled _ => .debug
  | engineTimedOut => .warning
  | engineAnswered => .debug
  | unreadable _ _ => .warning
  | timedOut _ => .warning
  | evaluated _ _ => .info

/-- The part of the program that reports the event. -/
def reporter : Event → String
  | compiled _ => "casbatch.casbatch_compiler"
  | engineTimedOut => "casbatch.casbatch_connector"
  | engineAnswered => "casbatch.casbatch_connector"
  | _ => "casbatch.casbatch_session"

/-- What the event says; the engine goes by the name of its connector. The time that an engine took
is not measured. -/
def message (connector : String) : Event → String
  | compiled p =>
    "compiled " ++ toString p.records.length ++ " statements (" ++ toString p.valueKeys.length ++
      " values, " ++ toString p.presentationKeys.length ++ " presentations) into " ++
      toString p.text.length ++ " characters"
  | engineTimedOut => connector ++ " timed out after 0.00s"
  | engineAnswered => connector ++ " answered in 0.00s"
  | unreadable key message => "could not parse value of " ++ key.display ++ ": " ++ message
  | timedOut n => "batch of " ++ toString n ++ " statements timed out"
  | evaluated n errors =>
    "batch of " ++ toString n ++ " statements evaluated with " ++ toString errors ++ " errors"

/-- The line of the log. -/
def logLine (connector : String) (event : Event) : String :=
  event.level.name ++ " " ++ event.reporter ++ ": " ++ event.message connector ++ "\n"

end Event

end AlgebraBatch.Batch
