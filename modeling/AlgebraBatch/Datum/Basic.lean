import AlgebraBatch.Datum.Moment
import AlgebraBatch.Decimal.Binary64

/-!
# Plain data

A `Datum` is what JSON and YAML can write: null, truth values, integers, doubles, texts, dates,
lists and maps; JSON has no dates. A map keeps its entries in the order in which their keys came.
Equality compares numbers by value across the three kinds of numbers, truth values counting as one
and zero, and maps without regard to order.
-/

namespace AlgebraBatch

inductive Datum where
  | null
  | bool (value : Bool)
  | int (value : Int)
  | float (value : Binary64)
  | str (value : String)
  | moment (value : Moment)
  | list (items : List Datum)
  | map (entries : List (Datum × Datum))
  deriving Repr, Inhabited

namespace Datum

/-- The name of a value's type in messages. -/
def typeName : Datum → String
  | null => "NoneType"
  | bool _ => "bool"
  | int _ => "int"
  | float _ => "float"
  | str _ => "str"
  | moment m => m.typeName
  | list _ => "list"
  | map _ => "dict"

/-- Null, false, zero and everything empty do not hold. -/
def holds : Datum → Bool
  | null => false
  | bool b => b
  | int n => n != 0
  | float x => !x.equalInt 0
  | str s => s != ""
  | moment _ => true
  | list items => !items.isEmpty
  | map entries => !entries.isEmpty

/-- The integer that a truth value or an integer counts as. -/
def integer? : Datum → Option Int
  | bool b => some (if b then 1 else 0)
  | int n => some n
  | _ => none

/-- Equality of what is neither a list nor a map. -/
def equalAtom (a b : Datum) : Bool :=
  match a, b with
  | null, null => true
  | str s, str t => s == t
  | moment x, moment y => x.equal y
  | float x, float y => x.equal y
  | float x, y => match y.integer? with
    | some n => x.equalInt n
    | none => false
  | x, float y => match x.integer? with
    | some n => y.equalInt n
    | none => false
  | x, y => match x.integer?, y.integer? with
    | some m, some n => m == n
    | _, _ => false

/-- The value of the entry whose key equals `key`. -/
def lookup (key : Datum) : List (Datum × Datum) → Option Datum
  | [] => none
  | (k, v) :: entries => if k.equalAtom key then some v else lookup key entries

/-- Gives `key` the value; a key that is there keeps its place. -/
def insert (key value : Datum) : List (Datum × Datum) → List (Datum × Datum)
  | [] => [(key, value)]
  | (k, v) :: entries =>
    if k.equalAtom key then (k, value) :: entries else (k, v) :: insert key value entries

def erase (key : Datum) (entries : List (Datum × Datum)) : List (Datum × Datum) :=
  entries.filter fun (k, _) => !k.equalAtom key

/-- The map of the entries; the last entry of a key gives its value, the first its place. -/
def ofEntries (entries : List (Datum × Datum)) : Datum :=
  .map (entries.foldl (fun m (k, v) => insert k v m) [])

mutual

def equal : Datum → Datum → Bool
  | list xs, list ys => equalItems xs ys
  | map xs, map ys => xs.length == ys.length && equalEntries xs ys
  | list _, _ => false
  | map _, _ => false
  | a, b => equalAtom a b

def equalItems : List Datum → List Datum → Bool
  | [], [] => true
  | x :: xs, y :: ys => equal x y && equalItems xs ys
  | _, _ => false

/-- Every entry has an equal one among `ys`. -/
def equalEntries : List (Datum × Datum) → List (Datum × Datum) → Bool
  | [], _ => true
  | (k, v) :: xs, ys =>
    (match lookup k ys with
      | some w => equal v w
      | none => false) && equalEntries xs ys

end

/-- Lists and maps cannot be keys of a map. -/
def isHashable : Datum → Bool
  | list _ => false
  | map _ => false
  | _ => true

/-- The entry of a map under a text. -/
def field? (name : String) : Datum → Option Datum
  | map entries => lookup (.str name) entries
  | _ => none

/-- What iteration over a value yields: the items of a list, the keys of a map, the characters of
a text. -/
def elements? : Datum → Option (List Datum)
  | list items => some items
  | map entries => some (entries.map Prod.fst)
  | str s => some (s.toList.map fun c => .str c.toString)
  | _ => none

def text? : Datum → Option String
  | str s => some s
  | _ => none

end Datum

end AlgebraBatch
