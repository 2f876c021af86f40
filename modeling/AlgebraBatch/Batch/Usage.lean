import AlgebraBatch.Datum.Basic
import AlgebraBatch.Expr.Basic
import AlgebraBatch.Fault

/-!
# Variable usage

A map with the members `read` and `write` tells which variables are read and written. An expression
reads every identifier in it that is not the head of a call; an assignment to a name at the top of a
statement writes that name and reads only its right side.
-/

namespace AlgebraBatch.Usage

open AlgebraBatch

mutual

/-- The names that an expression reads, from left to right. -/
def reads : Expr → List String
  | .identifier name => [name]
  | .operation _ l r => reads l ++ reads r
  | .prefixed _ e => reads e
  | .postfixed _ e => reads e
  | .call (.identifier _) args => readsItems args
  | .call head args => reads head ++ readsItems args
  | .indexed target indices => reads target ++ readsItems indices
  | .conditional branches otherwise => readsBranches branches ++ readsOption otherwise
  | .list items => readsItems items
  | .set items => readsItems items
  | .root items => readsItems items
  | _ => []

def readsItems : List Expr → List String
  | [] => []
  | e :: es => reads e ++ readsItems es

def readsBranches : List (Expr × Expr) → List String
  | [] => []
  | (c, v) :: bs => reads c ++ reads v ++ readsBranches bs

def readsOption : Option Expr → List String
  | none => []
  | some e => reads e

end

/-- The name that a statement assigns to. -/
def assigned? : Expr → Option String
  | .operation ":" (.identifier name) _ => some name
  | _ => none

/-- The part of a statement whose variables are read. -/
def readPart : Expr → Expr
  | .operation ":" (.identifier _) r => r
  | e => e

/-- A map with the member, which is empty if it was not there. -/
def withMember (name : String) (entries : List (Datum × Datum)) : List (Datum × Datum) :=
  match Datum.lookup (.str name) entries with
  | some _ => entries
  | none => Datum.insert (.str name) (.map []) entries

/-- Marks a name in a member of the map. -/
def mark (member name : String) (entries : List (Datum × Datum)) :
    Except Fault (List (Datum × Datum)) :=
  match Datum.lookup (.str member) entries with
  | some (.map names) =>
    .ok (Datum.insert (.str member) (.map (Datum.insert (.str name) (.bool true) names)) entries)
  | some _ => .error .wrongType
  | none => .error .missingKey

/-- The entries of a map that usage is merged into. -/
def entriesOf : Datum → Except Fault (List (Datum × Datum))
  | .null => .ok []
  | .map entries => .ok entries
  | _ => .error .missingMember

/-- Merges the usage of a statement into a map. -/
def merge (expr : Option Expr) (update : Datum) : Except Fault Datum := do
  let entries := withMember "write" (withMember "read" (← entriesOf update))
  match expr with
  | none => .ok (.map entries)
  | some e =>
    let entries ← match assigned? e with
      | some name => mark "write" name entries
      | none => pure entries
    (.map ·) <$> (reads (readPart e)).foldlM (fun m name => mark "read" name m) entries

end AlgebraBatch.Usage
