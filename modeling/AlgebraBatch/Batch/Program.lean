import AlgebraBatch.Batch.Key
import AlgebraBatch.Batch.Options
import AlgebraBatch.Batch.Request

/-!
# Batch programs

A batch is sent to the engine as one program. `plan` makes a record of each request, `items` lists
what stands in the program's block, and `programText` writes the program from the items, with commas
between them. The errors of a statement are collected in `_ERR`, its notes in `_NOTES`; values and
typeset forms are collected under the keys of their records, after all statements have run. The seed
is written into the program; a seed with too many digits is not, and `seedFault?` is its fault.
-/

namespace AlgebraBatch.Batch

open AlgebraBatch.Text

/-- A request as the program sees it. -/
structure Record where
  index : Nat
  form : String
  context : String
  collectsValue : Bool
  collectsPresentation : Bool
  deriving DecidableEq, Repr, Inhabited

namespace Record

def key (r : Record) : String := Key.key r.index

/-- Something is to be collected from the request. -/
def isExtractor (r : Record) : Bool := r.collectsValue || r.collectsPresentation

def ofRequest (r : Request) (index : Nat) : Record :=
  { index, form := r.form, context := r.context, collectsValue := r.collectsValue,
    collectsPresentation := r.collectsPresentation }

/-- Evaluates a form and records its errors under the context and the index. -/
def evaluation (r : Record) : String :=
  let form := if r.isExtractor then r.key ++ ":" ++ r.form else r.form
  "_EC(errcatch(" ++ form ++ ")," ++ Literal.quoteText r.context ++ "," ++ toString r.index ++ ")"

/-- The items that evaluate a request. The notes of a request from which something is collected are
kept under its key. -/
def statementItems (r : Record) : List String :=
  if r.isExtractor then
    ["__NOTES:[]", r.evaluation,
      "if length(__NOTES) > 0 then _NOTES:stackmap_set(_NOTES," ++ Literal.quoteText r.key ++
        ",__NOTES)"]
  else [r.evaluation]

def valueItem (r : Record) : String :=
  "_VALUES:stackmap_set(_VALUES," ++ Literal.quoteText r.key ++ ",string(" ++ r.key ++ "))"

def presentationItem (r : Record) : String :=
  "_LATEX:stackmap_set(_LATEX," ++ Literal.quoteText r.key ++ ",tex1(" ++ r.key ++ "))"

end Record

/-- The records of the requests, in order, numbered from `start` on. -/
def planFrom (start : Nat) : List Request → List Record
  | [] => []
  | r :: rs => .ofRequest r start :: planFrom (start + 1) rs

def plan (requests : List Request) : List Record := planFrom 0 requests

/-- Defines the function that records a failed evaluation. -/
def errorRecorder : String :=
  "_EC(ec,sco,sta):=if is(ec=[]) then (_ERR:append(_ERR,[[error,sco,sta]]),false) else true$"

/-- Defines the function that collects the notes of a running statement. -/
def feedbackHelper : String :=
  "StackAddFeedback(fb,key,[ex]):=block([str,exprs,jloop],exprs:\"\"," ++
    "ev(for jloop:1 thru length(ex) do exprs: " ++
    "sconcat(exprs,\" , !quot!\",ex[jloop],\"!quot! \"),simp)," ++
    "str:sconcat(fb, \"stack_trans('\",key,\"'\", exprs, \"); !NEWLINE!\")," ++
    "__NOTES:append(__NOTES,[sconcat(\"stack_trans('\",key,\"'\", exprs, \");\")]),return(str))$"

/-- Some record collects a typeset form. -/
def wantsPresentation (records : List Record) : Bool := records.any (·.collectsPresentation)

def optionItems (options : Options) : List String :=
  Setting.all.map fun s => " " ++ options.command s

/-- What keeps a seed from being written into a program. -/
@[irreducible]
def seedFault? (seed : Int) : Option Fault := (Datum.int seed).writingFault?

def openingItems (seed : Int) : List String :=
  ["[]", "stack_randseed(" ++ toString seed ++ ")"]

/-- Makes the collections empty. -/
def initialItems (presentation : Bool) : List String :=
  ["_ERR:[]", "_RESPONSE:[\"stack_map\"]", "_NOTES:[\"stack_map\"]", "_VALUES:[\"stack_map\"]"] ++
    (if presentation then ["_LATEX:[\"stack_map\"]"] else []) ++
    ["_VALUES:stackmap_set(_VALUES,\"__stackmaximaversion\",stackmaximaversion)"]

def collectionItems (records : List Record) : List String :=
  (records.filter (·.collectsValue)).map Record.valueItem ++
    (records.filter (·.collectsPresentation)).map Record.presentationItem

/-- Puts the answer together and prints it between the sentinels. -/
def closingItems (presentation : Bool) : List String :=
  ["_RESPONSE:stackmap_set(_RESPONSE,\"timeout\",false)",
    "_RESPONSE:stackmap_set(_RESPONSE,\"values\",_VALUES)",
    "if length(_NOTES)>1 then _RESPONSE:stackmap_set(_RESPONSE,\"answernotes\",_NOTES)"] ++
    (if presentation then ["_RESPONSE:stackmap_set(_RESPONSE,\"presentation\",_LATEX)"] else []) ++
    ["if length(_ERR)>0 then _RESPONSE:stackmap_set(_RESPONSE,\"errors\",_ERR)",
      "print(\"" ++ outputBegins ++ "\")", "print(stackjson_stringify(_RESPONSE))",
      "print(\"" ++ outputEnds ++ "\")"]

/-- What stands in the program's block, in order. -/
def items (options : Options) (seed : Int) (records : List Record) : List String :=
  openingItems seed ++ optionItems options ++ initialItems (wantsPresentation records) ++
    records.flatMap Record.statementItems ++ collectionItems records ++
    closingItems (wantsPresentation records)

/-- The program of the records. -/
def programText (options : Options) (seed : Int) (records : List Record) : String :=
  errorRecorder ++ feedbackHelper ++ "block(" ++ joinWith "," (items options seed records) ++ ")$"

/-- A compiled batch: the program and the records that it was written from. -/
structure Program where
  text : String
  records : List Record
  deriving Repr

namespace Program

def valueKeys (p : Program) : List String :=
  (p.records.filter (·.collectsValue)).map Record.key

def presentationKeys (p : Program) : List String :=
  (p.records.filter (·.collectsPresentation)).map Record.key

end Program

/-- Compiles requests into one program, for a seed that can be written. -/
def compile (options : Options) (seed : Int) (requests : List Request) : Program :=
  let records := plan requests
  ⟨programText options seed records, records⟩

end AlgebraBatch.Batch
