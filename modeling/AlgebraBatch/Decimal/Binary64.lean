/-!
# Double-precision numbers

A finite number is `mantissa * 2 ^ exponent` with a sign. `ofRatio` rounds a quotient of natural
numbers to the nearest double, a tie to the even mantissa, and `ofDecimal` does so for a decimal.
The numbers that these make have a mantissa below `2 ^ 53` and an exponent of at least `-1074`, and
a mantissa below `2 ^ 52` only at the least exponent, so equal numbers of one sign are equal as
terms. Arithmetic computes the exact result and rounds it once.
-/

namespace AlgebraBatch

inductive Binary64 where
  | nan
  | infinite (negative : Bool)
  | finite (negative : Bool) (mantissa : Nat) (exponent : Int)
  deriving DecidableEq, Repr, Inhabited

namespace Binary64

def minExponent : Int := -1074

def maxExponent : Int := 971

def zero (negative : Bool) : Binary64 := .finite negative 0 minExponent

/-- The quotient rounded to the nearest natural number, a tie to the even one. -/
def nearest (num den : Nat) : Nat :=
  let q := num / den
  let r := num % den
  if den < 2 * r || (2 * r == den && q % 2 == 1) then q + 1 else q

/-- `2 ^ e ≤ num / den`. -/
def reaches (num den : Nat) (e : Int) : Bool :=
  if 0 ≤ e then den * Nat.pow 2 e.toNat ≤ num else den ≤ num * Nat.pow 2 (-e).toNat

/-- The greatest `e` with `2 ^ e ≤ num / den`, for positive numbers. -/
def binade (num den : Nat) : Int :=
  let e : Int := (num.log2 : Int) - (den.log2 : Int)
  if reaches num den e then e else e - 1

/-- A mantissa of 53 bits or fewer, with the carry of rounding taken into the exponent. -/
def pack (negative : Bool) (mantissa : Nat) (exponent : Int) : Binary64 :=
  let (m, q) :=
    if mantissa == Nat.pow 2 53 then (Nat.pow 2 52, exponent + 1) else (mantissa, exponent)
  if maxExponent < q then .infinite negative else .finite negative m q

/-- The double nearest to `num / den`. -/
def ofRatio (negative : Bool) (num den : Nat) : Binary64 :=
  if num == 0 then zero negative
  else
    let q := max (binade num den - 52) minExponent
    let m :=
      if 0 ≤ q then nearest num (den * Nat.pow 2 q.toNat)
      else nearest (num * Nat.pow 2 (-q).toNat) den
    pack negative m q

/-- The double nearest to `digits * 10 ^ exponent`. Exponents far outside the range of doubles are
settled without computing the power. -/
def ofDecimal (negative : Bool) (digits : Nat) (exponent : Int) : Binary64 :=
  if digits == 0 then zero negative
  else if 400 < exponent then .infinite negative
  else if exponent + digits.log2 + 401 < 0 then zero negative
  else if 0 ≤ exponent then ofRatio negative (digits * Nat.pow 10 exponent.toNat) 1
  else ofRatio negative digits (Nat.pow 10 (-exponent).toNat)

/-- The double nearest to `±mantissa * 2 ^ exponent`. -/
def ofScaled (negative : Bool) (mantissa : Nat) (exponent : Int) : Binary64 :=
  if 0 ≤ exponent then ofRatio negative (mantissa * Nat.pow 2 exponent.toNat) 1
  else ofRatio negative mantissa (Nat.pow 2 (-exponent).toNat)

/-- The double nearest to an integer, unless the integer exceeds every double. -/
def ofInt? (n : Int) : Option Binary64 :=
  match ofRatio (n < 0) n.natAbs 1 with
  | .infinite _ => none
  | x => some x

/-- The finite number as a multiple of the least positive double, `2 ^ (-1074)`. -/
def scaled (negative : Bool) (mantissa : Nat) (exponent : Int) : Int :=
  let m : Nat := mantissa * Nat.pow 2 (exponent - minExponent).toNat
  if negative then -m else m

/-- The integer part, toward zero; none for what is not finite. -/
def truncate? : Binary64 → Option Int
  | .finite negative m q =>
    let n : Int := if 0 ≤ q then m * Nat.pow 2 q.toNat else m / Nat.pow 2 (-q).toNat
    some (if negative then -n else n)
  | _ => none

def isNegative : Binary64 → Bool
  | .finite negative m _ => negative && m != 0
  | .infinite negative => negative
  | .nan => false

/-- Equality of values: the two zeros are equal and a NaN equals nothing. -/
def equal : Binary64 → Binary64 → Bool
  | .finite n m q, .finite n' m' q' => scaled n m q == scaled n' m' q'
  | .infinite n, .infinite n' => n == n'
  | _, _ => false

/-- The double is exactly the integer `n`. -/
def equalInt (x : Binary64) (n : Int) : Bool :=
  match x with
  | .finite negative m q => scaled negative m q == n * Nat.pow 2 (-minExponent).toNat
  | _ => false

def negate : Binary64 → Binary64
  | .finite n m q => .finite (!n) m q
  | .infinite n => .infinite (!n)
  | .nan => .nan

def mul : Binary64 → Binary64 → Binary64
  | .finite n m q, .finite n' m' q' => ofScaled (n != n') (m * m') (q + q')
  | .finite n m _, .infinite n' => if m == 0 then .nan else .infinite (n != n')
  | .infinite n, .finite n' m _ => if m == 0 then .nan else .infinite (n != n')
  | .infinite n, .infinite n' => .infinite (n != n')
  | _, _ => .nan

def add : Binary64 → Binary64 → Binary64
  | .finite n m q, .finite n' m' q' =>
    let s := scaled n m q + scaled n' m' q'
    if s == 0 then zero (n && n') else ofScaled (s < 0) s.natAbs minExponent
  | .infinite n, .infinite n' => if n == n' then .infinite n else .nan
  | .infinite n, .finite .. => .infinite n
  | .finite .., .infinite n => .infinite n
  | _, _ => .nan

end Binary64

end AlgebraBatch
