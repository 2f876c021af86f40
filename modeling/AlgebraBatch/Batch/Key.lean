import AlgebraBatch.Decimal.Numeral
import AlgebraBatch.Fault

/-!
# Correlation keys

A request is known to the engine by a key that holds its position in the batch. `key` writes the key
of a position and `index` reads the position back from a key, taking any integer numeral after the
fixed beginning.
-/

namespace AlgebraBatch.Key

open AlgebraBatch.Text

/-- What every key begins with. -/
def stem : String := "__e_smt_"

/-- The key of a position. -/
def key (index : Int) : String := stem ++ toString index

/-- The position that a key names. -/
def index (key : String) : Except Fault Int :=
  if stem.toList.isPrefixOf key.toList then
    (Numeral.readInteger (String.ofList (key.toList.drop stem.length))).mapError .numeral
  else .error (.badValue ("Not a statement key: " ++ quoted key))

end AlgebraBatch.Key
