import AlgebraBatch.Decimal.Numeral
import AlgebraBatch.Syntax.Parser

/-!
# Faults

`Fault` lists everything that can go wrong in a batch. The first constructors are the library's own
reports; the last ones say that a value of the wrong shape came where the engine, a file or a caller
may put any value, and they carry no message.
-/

namespace AlgebraBatch

open AlgebraBatch.Text

/-- What is wrong with engine options. -/
inductive OptionsFault where
  | notMapping (typeName : String)
  | unknown (names : List String)
  | notBoolean (name shown : String)
  | notAllowed (name : String) (allowed : List String) (shown : String)
  | unreadable (path : String)
  | notOptions (typeName : String)
  deriving DecidableEq, Repr

def OptionsFault.message : OptionsFault → String
  | notMapping t => "options must be a mapping, got " ++ t
  | unknown names => "unknown option(s): " ++ joinWith ", " names
  | notBoolean name shown => "option '" ++ name ++ "' must be a boolean, got " ++ shown
  | notAllowed name allowed shown =>
    "option '" ++ name ++ "' must be one of " ++ joinWith ", " (allowed.map quoted) ++ ", got " ++
      shown
  | unreadable path => "could not read options from " ++ path
  | notOptions t => "options must be EngineOptions, got " ++ t

/-- How an exchange with the engine fails. -/
inductive EngineFault where
  | noBegin (output : String)
  | noEnd (output : String)
  | notMapping (shown : String)
  | notStarted (program reason : String)
  | exited (status : Int) (stderr : String)
  | requestFailed (url reason : String)
  | httpStatus (status : Int) (url body : String)
  deriving DecidableEq, Repr

/-- The sentinel before the engine's answer. -/
def outputBegins : String := "STACK-OUTPUT-BEGINS>"

/-- The sentinel after the engine's answer. -/
def outputEnds : String := "<STACK-OUTPUT-ENDS"

def EngineFault.message : EngineFault → String
  | noBegin output =>
    "Engine output has no '" ++ outputBegins ++ "' marker: " ++ quoted (takeFirst 200 output)
  | noEnd output =>
    "Engine output has no '" ++ outputEnds ++ "' marker: " ++ quoted (takeLast 200 output)
  | notMapping shown => "Engine payload is not a mapping: " ++ quoted (takeFirst 200 shown)
  | notStarted program reason => "Could not start engine " ++ program ++ ": " ++ reason
  | exited status stderr =>
    "Engine exited with status " ++ toString status ++ ": " ++ takeFirst 200 stderr
  | requestFailed url reason => "Request to " ++ url ++ " failed: " ++ reason
  | httpStatus status url body =>
    "HTTP " ++ toString status ++ " for " ++ url ++ ": " ++ takeFirst 200 body

inductive Fault where
  | syntaxError (message : String) (position : Option (Nat × Nat))
  | notEvaluatable (typeName : String)
  | badSeed (shown : String)
  | badOptions (fault : OptionsFault)
  | invalidBatch
  | engine (fault : EngineFault)
  | badValue (message : String)
  | numeral (fault : NumeralFault)
  | unprintable (typeName : String)
  | unknownTag (shown : String)
  | wrongType
  | missingKey
  | missingIndex
  | missingMember
  | tooLarge
  | unknownEncoding
  deriving DecidableEq, Repr

/-- The message of a fault that has one. -/
def Fault.message? : Fault → Option String
  | syntaxError message _ => some message
  | notEvaluatable t => some ("items in statements must be CasEvaluatable, got " ++ t)
  | badSeed shown => some ("seed must be an int, got " ++ shown)
  | badOptions fault => some fault.message
  | invalidBatch => some "cannot instantiate a session holding invalid statements"
  | engine fault => some fault.message
  | badValue message => some message
  | numeral fault => some fault.message
  | unprintable t => some ("Cannot print " ++ t ++ " as a CAS expression")
  | unknownTag shown => some ("No transformer for tag '" ++ shown ++ "'")
  | _ => none

/-- The reports that belong to the library: all but faults of values. -/
def Fault.isReport : Fault → Bool
  | syntaxError .. => true
  | notEvaluatable _ => true
  | badSeed _ => true
  | badOptions _ => true
  | invalidBatch => true
  | engine _ => true
  | _ => false

/-- The fault of a text that cannot be parsed. Its position is the one that the message names. -/
def Syntax.ParseFault.toFault : Syntax.ParseFault → Fault
  | .rejected text why =>
    let message := why.message text
    .syntaxError message (Syntax.findPlace? message.toList)
  | .overlong digits => .numeral (.tooManyDigits digits)

/-- The fault of something that is to be parsed and is no text. -/
def Syntax.notText (typeName : String) : Fault :=
  .syntaxError ("ParseError: expected a string, got " ++ typeName) none

end AlgebraBatch
