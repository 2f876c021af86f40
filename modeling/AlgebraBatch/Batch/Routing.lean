import AlgebraBatch.Batch.Key
import AlgebraBatch.Datum.Number
import AlgebraBatch.Engine.Output

/-!
# Routing the engine's answer

A bag has up to four members about requests: `values` and `presentation` hold texts under the keys
of requests, `answernotes` holds notes under such keys, and `errors` is a list of records with
messages, a context and a position. A `Routing` has all of it in a form from which `errorsAt`,
`notesAt`, `valueAt?` and `presentationAt?` read what is meant for one request. The engine may
answer anything, so reading a bag can fail at many places; `Reception` says how far it came.
-/

namespace AlgebraBatch.Batch

open AlgebraBatch.Engine

/-- What a value in a bag turns out to be. -/
inductive Reading where
  | value (e : Expr)
  /-- A text that is no expression, and what is wrong with it. -/
  | unreadable (text message : String)
  /-- Not a text; it is passed over. -/
  | other
  deriving Repr

namespace Reading

/-- Reads a value. A text that the grammar rejects is unreadable; any other fault is passed on. -/
def of : Datum → Except Fault Reading
  | .str text =>
    match Syntax.parseExpr text with
    | .ok e => .ok (.value e)
    | .error fault =>
      match fault.toFault with
      | .syntaxError message _ => .ok (.unreadable text message)
      | fault => .error fault
  | _ => .ok .other

def value? : Reading → Option Expr
  | value e => some e
  | _ => none

def isUnreadable : Reading → Bool
  | unreadable _ _ => true
  | _ => false

end Reading

/-- The position that a key of a bag names. -/
def position? : Datum → Option Int
  | .str key => (Key.index key).toOption
  | _ => none

/-- The message to a request whose value is unreadable. -/
def unreadableMessage (text : String) : Datum := .str ("Could not parse CAS value: " ++ text)

structure Routing where
  values : List (Datum × Reading) := []
  presentations : List (Datum × Datum) := []
  /-- The messages of each error record, under the record's position. -/
  errors : List (Int × List Datum) := []
  notes : List (Int × Datum) := []
  deriving Repr

namespace Routing

/-- The texts of unreadable values whose keys name the position. -/
def unreadableAt (routing : Routing) (i : Int) : List String :=
  routing.values.filterMap fun (key, reading) =>
    match reading with
    | .unreadable text _ => if position? key == some i then some text else none
    | _ => none

/-- The messages of the records at a position, the last record first. -/
def messagesAt (routing : Routing) (i : Int) : List Datum :=
  (routing.errors.reverse.filter fun (position, _) => position == i).flatMap Prod.snd

/-- The errors of a request: the messages of its records and then one for each unreadable value. -/
def errorsAt (routing : Routing) (i : Int) : List Datum :=
  routing.messagesAt i ++ (routing.unreadableAt i).map unreadableMessage

/-- The notes of a request; the last entry counts. -/
def notesAt (routing : Routing) (i : Int) : Datum :=
  match (routing.notes.filter fun (position, _) => position == i).getLast? with
  | some (_, notes) => notes
  | none => .list []

def valueAt? (routing : Routing) (key : String) : Option Expr :=
  (routing.values.find? fun (k, _) => k.equalAtom (.str key)).bind fun (_, r) => r.value?

def presentationAt? (routing : Routing) (key : String) : Option String :=
  (Datum.lookup (.str key) routing.presentations).bind Datum.text?

end Routing

/-! ## Reading a bag -/

/-- The entries of a member of the bag. A member that is missing or does not hold has none. -/
def memberEntries (name : String) (bag : Bag) : Except Fault (List (Datum × Datum)) :=
  match bag.member? name with
  | none => .ok []
  | some d =>
    match d with
    | .map entries => .ok entries
    | d => if d.holds then .error .missingMember else .ok []

/-- The fault of an unreadable value that is under no text. -/
def keyFault? (key : Datum) (reading : Reading) : Option Fault :=
  if reading.isUnreadable && key.text?.isNone then some .missingMember else none

/-- The readings of values up to the first fault, and the fault. -/
def readValues : List (Datum × Datum) → List (Datum × Reading) × Option Fault
  | [] => ([], none)
  | (key, d) :: entries =>
    match Reading.of d with
    | .error fault => ([], some fault)
    | .ok reading =>
      match keyFault? key reading with
      | some fault => ([(key, reading)], some fault)
      | none =>
        let (readings, fault) := readValues entries
        ((key, reading) :: readings, fault)

/-- The part of an error record at an index. -/
def recordPart (i : Nat) : Datum → Except Fault Datum
  | .list parts =>
    match parts[i]? with
    | some d => .ok d
    | none => .error .missingIndex
  | .str s =>
    match s.toList[i]? with
    | some c => .ok (.str c.toString)
    | none => .error .missingIndex
  | .map entries =>
    match Datum.lookup (.int i) entries with
    | some d => .ok d
    | none => .error .missingKey
  | _ => .error .wrongType

/-- The messages of a record: its first part, which need not be a list. -/
def recordMessages (record : Datum) : Except Fault (List Datum) := do
  match ← recordPart 0 record with
  | .list messages => .ok messages
  | d => .ok [d]

/-- The position and the messages of a record. -/
def readRecord (record : Datum) : Except Fault (Int × List Datum) := do
  let messages ← recordMessages record
  let position ← (← recordPart 2 record).toInteger
  .ok (position, messages)

def readErrors (errors : Datum) : Except Fault (List (Int × List Datum)) :=
  match errors.elements? with
  | some records => records.mapM readRecord
  | none => .error .wrongType

/-- The notes under keys that name positions. -/
def readNotes (entries : List (Datum × Datum)) : Except Fault (List (Int × Datum)) :=
  if entries.all fun (key, _) => key.text?.isSome then
    .ok (entries.filterMap fun (key, d) => (position? key).map fun i => (i, d))
  else .error .missingMember

/-- How far reading a bag came. -/
structure Reception where
  /-- What the session keeps as the errors of the batch. -/
  errors : Datum
  values : List (Datum × Reading)
  routing : Except Fault Routing

/-- Reads a bag: the values, the presentations, the errors and the notes, in this order. -/
def receive (bag : Bag) : Reception :=
  match memberEntries "values" bag with
  | .error fault => ⟨.list [], [], .error fault⟩
  | .ok entries =>
    match readValues entries with
    | (values, some fault) => ⟨.list [], values, .error fault⟩
    | (values, none) =>
      match memberEntries "presentation" bag with
      | .error fault => ⟨.list [], values, .error fault⟩
      | .ok presentations =>
        let errors := (bag.member? "errors").getD (.list [])
        ⟨errors, values, do
          let errors ← readErrors errors
          let notes ← readNotes (← memberEntries "answernotes" bag)
          .ok { values, presentations, errors, notes }⟩

end AlgebraBatch.Batch
