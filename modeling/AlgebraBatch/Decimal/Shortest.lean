import AlgebraBatch.Decimal.Binary64

/-!
# The shortest decimal of a double

`shortest m q` is the decimal with the fewest digits that rounds to `m * 2 ^ q`, and among those the
nearest one. For each number of digits it looks at the two neighbours of the value on the grid of
decimals with so many digits; if a grid meets the interval of the reals that round to the double,
one of the two neighbours lies in it.
-/

namespace AlgebraBatch.Decimal

/-- A decimal `digits * 10 ^ exponent`. -/
structure Scientific where
  digits : Nat
  exponent : Int
  deriving DecidableEq, Repr

/-- The reals that round to a double: `lo / den` to `hi / den` around `mid / den`, with the ends if
`closed`. -/
structure Interval where
  lo : Nat
  mid : Nat
  hi : Nat
  den : Nat
  closed : Bool

/-- The interval of `m * 2 ^ q`. Below a power of two the doubles lie closer together. -/
def interval (m : Nat) (q : Int) : Interval :=
  let below := if m == Nat.pow 2 52 && Binary64.minExponent < q then 1 else 2
  let up := if 0 ≤ q then Nat.pow 2 q.toNat else 1
  let down := if 0 ≤ q then 1 else Nat.pow 2 (-q).toNat
  { lo := (4 * m - below) * up, mid := 4 * m * up, hi := (4 * m + 2) * up, den := 4 * down,
    closed := m % 2 == 0 }

/-- `d * 10 ^ k` rounds to the double. -/
def Interval.holds (i : Interval) (d : Nat) (k : Int) : Bool :=
  let x := if 0 ≤ k then d * Nat.pow 10 k.toNat * i.den else d * i.den
  let s := if 0 ≤ k then 1 else Nat.pow 10 (-k).toNat
  if i.closed then i.lo * s ≤ x && x ≤ i.hi * s else i.lo * s < x && x < i.hi * s

/-- The greatest `e` with `10 ^ e ≤ num / den`, searched from an estimate on. -/
def decade (num den : Nat) : Int :=
  let reaches (e : Int) : Bool :=
    if 0 ≤ e then den * Nat.pow 10 e.toNat ≤ num else den ≤ num * Nat.pow 10 (-e).toNat
  let bits := (num.log2 : Int) - den.log2
  let e := bits * 30103 / 100000 + 2
  ([e, e - 1, e - 2, e - 3, e - 4].find? reaches).getD (e - 5)

/-- The neighbours of `num / den` on the grid of the multiples of `10 ^ k`, and whether the lower
one is strictly nearer or, at equal distance, even. -/
def neighbours (num den : Nat) (k : Int) : Nat × Bool :=
  let n := if 0 ≤ k then num else num * Nat.pow 10 (-k).toNat
  let d := if 0 ≤ k then den * Nat.pow 10 k.toNat else den
  let f := n / d
  let r := n % d
  (f, 2 * r < d || (2 * r == d && f % 2 == 0))

/-- The nearest decimal on the grid of `10 ^ k` that rounds to the double. -/
def Interval.onGrid? (i : Interval) (k : Int) : Option Scientific :=
  let (f, lowerFirst) := neighbours i.mid i.den k
  let candidates := if lowerFirst then [f, f + 1] else [f + 1, f]
  (candidates.find? (i.holds · k)).map (⟨·, k⟩)

/-- The decimal without trailing zeros in its digits. -/
def trimZeros : Nat → Scientific → Scientific
  | 0, s => s
  | fuel + 1, s =>
    if s.digits % 10 == 0 && s.digits != 0 then trimZeros fuel ⟨s.digits / 10, s.exponent + 1⟩
    else s

/-- The shortest decimal that rounds to `m * 2 ^ q`, for positive `m`. -/
def shortest (m : Nat) (q : Int) : Scientific :=
  let i := interval m q
  let e := decade i.mid i.den
  let found := (List.range 17).findSome? fun (n : Nat) => i.onGrid? (e - n)
  trimZeros 20 (found.getD ⟨m, q⟩)

end AlgebraBatch.Decimal
