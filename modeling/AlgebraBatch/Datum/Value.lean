import AlgebraBatch.Datum.Display

/-!
# Values of documents

Who reads a document decides which values there are. A reader may know more than plain data: octets,
sets, lists of pairs, a list that is one of its own items. `Value` is all that the library asks of a
value: whether it is null, whether it holds, what it is if it is a truth value, a text or a map, and
how it is shown. Plain data are values of every kind; they are also a kind of values themselves.
-/

namespace AlgebraBatch

namespace Datum

def isNull : Datum → Bool
  | null => true
  | _ => false

def flag? : Datum → Option Bool
  | bool b => some b
  | _ => none

def entries? : Datum → Option (List (Datum × Datum))
  | map entries => some entries
  | _ => none

end Datum

/-- A kind of values. -/
class Value (α : Type) where
  ofDatum : Datum → α
  /-- The name of a value's type in messages. -/
  typeName : α → String
  isNull : α → Bool
  /-- The value does not count as nothing. -/
  holds : α → Bool
  flag? : α → Option Bool
  text? : α → Option String
  /-- The entries of a map; no two of them have the same key. -/
  entries? : α → Option (List (α × α))
  /-- The value as messages quote it. -/
  debug : α → String
  display : α → String
  /-- What keeps a value from being written. -/
  writingFault? : α → Option Fault
  holds_of_isNull {v : α} : isNull v = true → holds v = false
  holds_of_entries? {v : α} {entries : List (α × α)} :
    entries? v = some entries → holds v = !entries.isEmpty
  /-- The library's own reports do not come from writing a value. -/
  isReport_of_writingFault? {v : α} {f : Fault} : writingFault? v = some f → f.isReport = false
  text?_ofDatum (d : Datum) : text? (ofDatum d) = d.text?
  entries?_ofDatum (d : Datum) :
    entries? (ofDatum d) = d.entries?.map (List.map (Prod.map ofDatum ofDatum))
  writingFault?_ofDatum (d : Datum) : writingFault? (ofDatum d) = d.writingFault?

namespace Datum

theorem holds_of_isNull {d : Datum} (h : d.isNull = true) : d.holds = false := by
  cases d with
  | null => rfl
  | _ => cases h

theorem entries?_eq_some {d : Datum} {entries : List (Datum × Datum)} :
    d.entries? = some entries ↔ d = .map entries := by
  cases d with
  | map es => exact Option.some_inj.trans ⟨congrArg Datum.map, Datum.map.inj⟩
  | _ => exact iff_of_false nofun nofun

theorem isReport_of_writingFault? {d : Datum} {f : Fault} (h : d.writingFault? = some f) :
    f.isReport = false := by
  unfold writingFault? at h
  split at h
  · obtain rfl := Option.some.inj h
    rfl
  · cases h

instance : Value Datum where
  ofDatum d := d
  typeName := typeName
  isNull := isNull
  holds := holds
  flag? := flag?
  text? := text?
  entries? := entries?
  debug := debug
  display := display
  writingFault? := writingFault?
  holds_of_isNull := holds_of_isNull
  holds_of_entries? h := by
    rw [entries?_eq_some.1 h]
    rfl
  isReport_of_writingFault? := isReport_of_writingFault?
  text?_ofDatum _ := rfl
  entries?_ofDatum d := by
    have hid : List.map (Prod.map (fun d : Datum => d) fun d : Datum => d) = id := List.map_id_fun
    rw [hid, Option.map_id_fun, id]
  writingFault?_ofDatum _ := rfl

end Datum

/-- The value of the entry whose key is the text. -/
def Value.lookup {α : Type} [Value α] (name : String) : List (α × α) → Option α
  | [] => none
  | (k, v) :: entries => if Value.text? k = some name then some v else lookup name entries

end AlgebraBatch
