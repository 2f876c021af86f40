import AlgebraBatch.Decimal.Shortest

/-!
# Doubles as text

`Style.write` writes a double by its shortest decimal. A style says which decimal exponents are
written with a point in place, and how the three special values are spelled. `plainStyle` is the one
of messages, `jsonStyle` that of JSON.
-/

namespace AlgebraBatch.Decimal

structure Style where
  /-- The least decimal exponent written without an exponent part. -/
  leastPlain : Int
  /-- The first decimal exponent above those. -/
  endPlain : Int
  /-- The least number of digits of a written exponent. -/
  exponentWidth : Nat
  nan : String
  infinity : String

/-- A number below `10 ^ 16` and not below `10 ^ (-4)` has no exponent part; an exponent has two
digits at least. -/
def plainStyle : Style :=
  { leastPlain := -4, endPlain := 16, exponentWidth := 2, nan := "nan", infinity := "inf" }

def jsonStyle : Style :=
  { plainStyle with nan := "NaN", infinity := "Infinity" }

def zeros (n : Nat) : String := String.ofList (List.replicate n '0')

/-- An exponent with its sign. -/
def Style.exponentText (style : Style) (e : Int) : String :=
  let ds := toString e.natAbs
  (if e < 0 then "e-" else "e+") ++ zeros (style.exponentWidth - ds.length) ++ ds

/-- The digits with a point before the last `-exponent` of them; there is a digit on both sides. -/
def pointed (digits : String) (exponent : Int) : String :=
  if 0 ≤ exponent then digits ++ zeros exponent.toNat ++ ".0"
  else
    let places := (-exponent).toNat
    let cs := (zeros (places + 1 - digits.length) ++ digits).toList
    let whole := cs.length - places
    String.ofList (cs.take whole) ++ "." ++ String.ofList (cs.drop whole)

/-- One digit, the rest after a point, and an exponent. -/
def Style.scientific (style : Style) (digits : String) (e : Int) : String :=
  match digits.toList with
  | [] => ""
  | [d] => d.toString ++ style.exponentText e
  | d :: ds => d.toString ++ "." ++ String.ofList ds ++ style.exponentText e

def Style.writePositive (style : Style) (m : Nat) (q : Int) : String :=
  let s := shortest m q
  let digits := toString s.digits
  let e := s.exponent + digits.length - 1
  if style.leastPlain ≤ e && e < style.endPlain then pointed digits s.exponent
  else style.scientific digits e

def Style.write (style : Style) : Binary64 → String
  | .nan => style.nan
  | .infinite negative => (if negative then "-" else "") ++ style.infinity
  | .finite negative m q =>
    (if negative then "-" else "") ++ if m == 0 then "0.0" else style.writePositive m q

end AlgebraBatch.Decimal
