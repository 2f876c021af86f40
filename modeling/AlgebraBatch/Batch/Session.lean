import AlgebraBatch.Batch.Delivery
import AlgebraBatch.Batch.Event

/-!
# Sessions

A session is an ordered batch of requests with one seed and one set of options. `instantiate` sends
the batch to the engine in one call and hands the results to the requests. A session that has been
instantiated is not evaluated again until its membership changes. The requests themselves live in a
store, which other sessions share; a session names its members by their numbers.
-/

namespace AlgebraBatch.Batch

open AlgebraBatch.Engine AlgebraBatch.Text

structure Session where
  members : List Nat
  options : Options
  seed : Int
  instantiated : Bool := false
  /-- The error records of the last batch, as the engine gave them. -/
  errors : Datum := .list []
  lastProgram : Option Program := none
  lastResults : Option Bag := none

namespace Session

/-! ## Membership -/

/-- What is offered to a session: the number of a request, or a value that is no request. -/
abbrev Candidate := Nat ⊕ Datum

/-- The requests among the candidates, all of which must be requests. -/
def enlist : List Candidate → Except Fault (List Nat)
  | [] => .ok []
  | .inl i :: cs => (enlist cs).map (i :: ·)
  | .inr d :: _ => .error (.notEvaluatable d.typeName)

/-- A seed is an integer; without one the clock gives the seed. -/
def seedOf (clock : Int) : Datum → Except Fault Int
  | .null => .ok clock
  | .int n => .ok n
  | d => .error (d.writingFault?.getD (.badSeed d.debug))

/-- The options that a session is given, which may be something else. -/
def optionsOf : Options ⊕ Datum → Except Fault Options
  | .inl options => .ok options
  | .inr .null => .ok {}
  | .inr d => .error (.badOptions (.notOptions d.typeName))

def make (candidates : List Candidate) (options : Options ⊕ Datum) (seed : Datum) (clock : Int) :
    Except Fault Session := do
  let members ← enlist candidates
  let options ← optionsOf options
  let seed ← seedOf clock seed
  .ok { members, options, seed }

/-- The session with these members, which are yet to be evaluated. -/
def withMembers (s : Session) (members : List Nat) : Session :=
  { s with members, instantiated := false }

/-- Adds candidates at the end or at the beginning, or none of them if one is no request. -/
def add (s : Session) (candidates : List Candidate) (atEnd : Bool) : Except Fault Session := do
  let new ← enlist candidates
  .ok (s.withMembers (if atEnd then s.members ++ new else new ++ s.members))

/-- Places the members of `s` before those of the target. -/
def prependTo (s target : Session) : Session :=
  target.withMembers (s.members ++ target.members)

/-- Places the members of `s` after those of the target. -/
def appendTo (s target : Session) : Session :=
  target.withMembers (target.members ++ s.members)

/-! ## Queries -/

def requests (s : Session) (store : Store) : List Request :=
  s.members.map store.request

/-- Merges the variable usage of all members into a map. -/
def usage (s : Session) (store : Store) (update : Datum) : Except Fault Datum :=
  let update := match update with
    | .null => .map []
    | d => d
  (s.requests store).foldlM (fun u r => r.usage u) update

/-- Every member is valid; a session without members is. -/
def valid (s : Session) (store : Store) : Bool :=
  (s.requests store).all Request.valid

/-- The last member with a key. -/
def memberWithKey? (s : Session) (store : Store) (key : String) : Option Nat :=
  (s.members.filter fun i => (store.request i).key == key).getLast?

/-- The messages of the error records in one text. -/
def errorText (s : Session) : Except Fault String := do
  match s.errors.elements? with
  | none => .error .wrongType
  | some records =>
    let texts ← records.mapM fun record => do
      let messages ← recordMessages record
      .ok (joinWith " " (messages.map Datum.display))
    .ok (joinWith " " texts)

def debug (s : Session) : String :=
  "CasSession(" ++ toString s.members.length ++ " statements, seed=" ++ toString s.seed ++
    ", instantiated=" ++ (Datum.bool s.instantiated).debug ++ ")"

/-! ## Evaluation -/

/-- What came of evaluating a session. -/
structure Evaluation where
  session : Session
  store : Store
  /-- The program that was brought to the engine, if the engine was called. -/
  asked : Option String := none
  events : List Event := []
  /-- Whether every member received its results. -/
  result : Except Fault Bool

/-- The events of values that could not be read. -/
def unreadableEvents (values : List (Datum × Reading)) : List Event :=
  values.filterMap fun (key, reading) =>
    match reading with
    | .unreadable _ message => some (.unreadable key message)
    | _ => none

/-- Hands the results in a bag to the members. -/
def distribute (s : Session) (store : Store) (program : Program) (bag : Bag) : Evaluation :=
  let reception := receive bag
  let s := { s with errors := reception.errors }
  let events := unreadableEvents reception.values
  match reception.routing with
  | .error fault => { session := s, store, events, result := .error fault }
  | .ok routing =>
    match store.deliver s.members (routing.deliveries program.records) with
    | (store, some fault) => { session := s, store, events, result := .error fault }
    | (store, none) =>
      let errors := (s.errors.elements?.getD []).length
      { session := { s with instantiated := true }, store,
        events := events ++ [.evaluated s.members.length errors], result := .ok true }

/-- Tells every member that the engine ran out of time. -/
def giveUp (s : Session) (store : Store) : Evaluation :=
  let (store, fault) := store.deliver s.members (timeoutDeliveries s.members.length)
  { session := s, store, events := [.timedOut s.members.length],
    result := match fault with
      | some fault => .error fault
      | none => .ok s.instantiated }

/-- Takes the output of an engine that was given the program. -/
def conclude (s : Session) (store : Store) (program : Program)
    (output : Except Fault (Option String)) : Evaluation :=
  match output.bind fun text => (Bag.ofOutput text).map fun bag => (text.isNone, bag) with
  | .error fault => { session := s, store, result := .error fault }
  | .ok (silent, bag) =>
    let s := { s with lastResults := some bag }
    let e := if bag.isTimedOut then s.giveUp store else s.distribute store program bag
    { e with events := (if silent then .engineTimedOut else .engineAnswered) :: e.events }

/-- Evaluates the batch through `call`, which brings a program to the engine and gives its output.
A session without members, and one that has been instantiated, needs no engine, and a batch that is
invalid or has a seed that cannot be written is not brought to it. -/
def instantiate (s : Session) (store : Store) (call : String → Except Fault (Option String)) :
    Evaluation :=
  if s.members.isEmpty || s.instantiated then
    { session := { s with instantiated := true }, store, result := .ok true }
  else if !s.valid store then { session := s, store, result := .error .invalidBatch }
  else
    match seedFault? s.seed with
    | some fault => { session := s, store, result := .error fault }
    | none =>
      let program := compile s.options s.seed (s.requests store)
      let e := conclude { s with lastProgram := some program } store program (call program.text)
      { e with asked := some program.text, events := .compiled program :: e.events }

end Session

end AlgebraBatch.Batch
