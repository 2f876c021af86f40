import AlgebraBatch.Batch.Program
import AlgebraBatch.Batch.Routing

/-!
# Delivering results

Every request of a batch gets its status, in order, before any of them gets a value or a typeset
form, because a status clears both. `Routing.deliveries` lists what is delivered and to which
position; `Store.deliver` hands it out to the requests at those positions. Requests live in a store,
where sessions share them.
-/

namespace AlgebraBatch.Batch

/-- What a request can be given. -/
inductive Delivery where
  | status (errors : List Datum) (notes : Datum)
  | value (e : Expr)
  | presentation (text : String)
  deriving Repr

/-- Hands a delivery to a request. Only a status can be refused. -/
def Delivery.handTo (request : Request) : Delivery → Request × Option Fault
  | status errors notes => request.setStatus (.list errors) notes
  | value e => (request.setValue (.ofExpr e), none)
  | presentation text => (request.setPresentation (.str text), none)

namespace Routing

/-- The status of each of the first `count` positions. -/
def statuses (routing : Routing) (count : Nat) : List (Nat × Delivery) :=
  (List.range count).map fun i => (i, .status (routing.errorsAt i) (routing.notesAt i))

/-- The results that the engine brings for a record, as far as they are collected. -/
def resultsOf (routing : Routing) (r : Record) : List (Nat × Delivery) :=
  let value := if r.collectsValue then routing.valueAt? r.key else none
  let presentation := if r.collectsPresentation then routing.presentationAt? r.key else none
  (value.map fun e => (r.index, .value e)).toList ++
    (presentation.map fun s => (r.index, .presentation s)).toList

def deliveries (routing : Routing) (records : List Record) : List (Nat × Delivery) :=
  routing.statuses records.length ++ records.flatMap routing.resultsOf

end Routing

/-- The error of every request when the engine ran out of time. -/
def timedOutError : String := "TIMEDOUT"

/-- What is delivered when the engine ran out of time. -/
def timeoutDeliveries (count : Nat) : List (Nat × Delivery) :=
  (List.range count).map fun i => (i, .status [.str timedOutError] (.list []))

/-! ## Stores -/

/-- Gives every request by its number. -/
structure Store where
  request : Nat → Request

namespace Store

def ofList (requests : List Request) : Store :=
  ⟨fun i => requests.getD i default⟩

/-- Replaces a request. -/
def put (store : Store) (i : Nat) (r : Request) : Store :=
  ⟨fun j => if j = i then r else store.request j⟩

/-- Hands out deliveries in order to the members at their positions, until one is refused. -/
def deliver (members : List Nat) (store : Store) : List (Nat × Delivery) → Store × Option Fault
  | [] => (store, none)
  | (position, delivery) :: rest =>
    match members[position]? with
    | none => deliver members store rest
    | some i =>
      let (r, fault) := delivery.handTo (store.request i)
      match fault with
      | some fault => (store.put i r, some fault)
      | none => deliver members (store.put i r) rest

end Store

end AlgebraBatch.Batch
