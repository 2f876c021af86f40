import AlgebraBatch.Datum.Basic
import AlgebraBatch.Fault

/-!
# Numbers from data

`toInteger` and `toFloat` take a number from a value that is one or writes one. A double gives its
integer part; an integer that exceeds every double has no double.
-/

namespace AlgebraBatch

/-- The integer part of a double. -/
def Binary64.toInteger (x : Binary64) : Except Fault Int :=
  match x, x.truncate? with
  | _, some n => .ok n
  | .nan, _ => .error (.badValue "cannot convert float NaN to integer")
  | _, _ => .error .tooLarge

namespace Datum

/-- The integer that a value is or writes. -/
def toInteger : Datum → Except Fault Int
  | .str s => (Numeral.readInteger s).mapError .numeral
  | .float x => x.toInteger
  | d => match d.integer? with
    | some n => .ok n
    | none => .error .wrongType

/-- The double that a value is or writes. -/
def toFloat : Datum → Except Fault Binary64
  | .str s => (Numeral.readFloat s).mapError .numeral
  | .float x => .ok x
  | d => match d.integer? with
    | some n => match Binary64.ofInt? n with
      | some x => .ok x
      | none => .error .tooLarge
    | none => .error .wrongType

end Datum

end AlgebraBatch
