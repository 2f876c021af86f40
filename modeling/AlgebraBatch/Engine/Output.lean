import AlgebraBatch.Wire

/-!
# Output of the engine

The engine prints its answer between two sentinels, after a banner and before whatever else it has
to say. `payload` is the text between them: the first opening sentinel counts, and the first closing
one after it. `Bag.ofOutputBy` decodes the payload with some reader of YAML, and `Bag.ofOutput` with
`Yaml.read`. An engine that ran out of time has no output, and its bag says so; every bag has a member
`timeout`.
-/

namespace AlgebraBatch.Engine

open AlgebraBatch.Text

/-- What the engine answers: entries in the order in which they were written. -/
abbrev Bag := List (Datum × Datum)

/-- The text between the sentinels, without the blanks at its ends. -/
def payload (output : String) : Except Fault String :=
  match splitAtFirst? outputBegins.toList output.toList with
  | none => .error (.engine (.noBegin output))
  | some (_, rest) =>
    match splitAtFirst? outputEnds.toList rest with
    | none => .error (.engine (.noEnd output))
    | some (inside, _) => .ok (String.ofList (strip inside))

namespace Bag

/-- The bag of an engine that ran out of time. -/
def timedOut : Bag := [(.str "timeout", .bool true)]

section Reading

variable {α : Type} [Value α]

/-- The entries with a member `timeout`, which is false if it was not there. -/
def withTimeout (entries : List (α × α)) : List (α × α) :=
  match Value.lookup "timeout" entries with
  | some _ => entries
  | none => entries ++ [(Value.ofDatum (.str "timeout"), Value.ofDatum (.bool false))]

/-- The entries in the engine's output, of which there is none after a timeout. What is not JSON is
read by `read`. -/
def ofOutputBy (read : Yaml.Reader α) : Option String → Except Fault (List (α × α))
  | none => .ok [(Value.ofDatum (.str "timeout"), Value.ofDatum (.bool true))]
  | some output => do
    let v ← Wire.deserializeBy read "json" (← payload output)
    match Value.entries? v with
    | some entries => .ok (withTimeout entries)
    | none => .error ((Value.writingFault? v).getD (.engine (.notMapping (Value.display v))))

end Reading

/-- The bag in the engine's output. -/
def ofOutput : Option String → Except Fault Bag := ofOutputBy Yaml.read

def member? (name : String) (bag : Bag) : Option Datum :=
  Datum.lookup (.str name) bag

/-- The bag says that the engine ran out of time: the member is true, and not merely a value that
holds. -/
def isTimedOut (bag : Bag) : Bool :=
  match bag.member? "timeout" with
  | some (.bool true) => true
  | _ => false

end Bag

end AlgebraBatch.Engine
