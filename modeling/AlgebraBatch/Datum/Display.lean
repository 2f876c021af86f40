import AlgebraBatch.Datum.Basic
import AlgebraBatch.Decimal.Written
import AlgebraBatch.Fault

/-!
# Data in messages

`debug` shows a value as messages quote it: texts between quotes, lists in brackets, maps in braces.
`display` differs from it only for a text, which stands for itself, and for a date, which is written
out. An integer with more digits than a numeral may have is not written at all; `writingFault?` is
the fault of a value with such an integer in it.
-/

namespace AlgebraBatch.Datum

open AlgebraBatch.Text

mutual

def debug : Datum → String
  | null => "None"
  | bool b => if b then "True" else "False"
  | int n => toString n
  | float x => Decimal.plainStyle.write x
  | str s => quoted s
  | moment m => m.debug
  | list items => "[" ++ joinWith ", " (debugItems items) ++ "]"
  | map entries => "\x7b" ++ joinWith ", " (debugEntries entries) ++ "\x7d"

def debugItems : List Datum → List String
  | [] => []
  | x :: xs => debug x :: debugItems xs

def debugEntries : List (Datum × Datum) → List String
  | [] => []
  | (k, v) :: es => (debug k ++ ": " ++ debug v) :: debugEntries es

end

def display : Datum → String
  | str s => s
  | moment m => m.text
  | d => debug d

mutual

/-- Some integer in the value has more digits than are written. -/
def isOverlong : Datum → Bool
  | int n => Nat.pow 10 Numeral.maxDigits ≤ n.natAbs
  | list items => overlongItems items
  | map entries => overlongEntries entries
  | _ => false

def overlongItems : List Datum → Bool
  | [] => false
  | x :: xs => isOverlong x || overlongItems xs

def overlongEntries : List (Datum × Datum) → Bool
  | [] => false
  | (k, v) :: es => isOverlong k || isOverlong v || overlongEntries es

end

/-- What keeps a value from being written. -/
def writingFault? (d : Datum) : Option Fault :=
  if d.isOverlong then
    some (.badValue ("Exceeds the limit (" ++ toString Numeral.maxDigits ++
      " digits) for integer string conversion; use sys.set_int_max_str_digits() to increase the limit"))
  else none

end AlgebraBatch.Datum
