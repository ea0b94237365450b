import RoadAudit.Numeric.Decimal

/-! # Shortest decimals

The decimal with the fewest digits among those that read back as a given binary64 number, and of
these the one nearest to it. A decimal reads back exactly when it lies in the interval between
the midpoints to the two neighbouring numbers; the midpoints belong to it when the mantissa is
even. -/

namespace RoadAudit

/-- Which of two equally near decimals is taken. -/
inductive Tie where
  | even
  | up
deriving DecidableEq, Repr

namespace Shortest

/-- The least `k` with `n / d < 10 ^ k`, for positive `n` and `d`. -/
def decade (n d : Nat) : Int :=
  if d ≤ n then (Decimal.digitsOf (n / d)).length
  else
    let len := (Decimal.digitsOf (d / n)).length
    if n * tenPow (len - 1) = d then 2 - len else 1 - len

/-- A positive number as a fraction, with the ends of the interval that reads back as it over the
same denominator. -/
structure Interval where
  low : Nat
  value : Nat
  high : Nat
  denominator : Nat
  closed : Bool

def interval (m : Nat) (e : Int) : Interval :=
  let scale := twoPow (e - 2).toNat
  { low := (4 * m - if Binary64.isPowerBorder m e then 1 else 2) * scale
    value := 4 * m * scale
    high := (4 * m + 2) * scale
    denominator := twoPow (2 - e).toNat
    closed := m % 2 == 0 }

/-- Whether the decimal `c * 10 ^ p` reads back as the number. -/
def Interval.contains (i : Interval) (c : Nat) (p : Int) : Bool :=
  let left := c * tenPow p.toNat * i.denominator
  let unit := tenPow (-p).toNat
  if i.closed then i.low * unit ≤ left && left ≤ i.high * unit
  else i.low * unit < left && left < i.high * unit

/-- The decimal on the grid of multiples of `10 ^ p` that reads back and is nearest, if any: it
is one of the two neighbours of the number there. -/
def Interval.onGrid? (i : Interval) (tie : Tie) (p : Int) : Option Nat :=
  let num := i.value * tenPow (-p).toNat
  let den := i.denominator * tenPow p.toNat
  let below := num / den
  let rest := num % den
  match i.contains below p, i.contains (below + 1) p with
  | true, true =>
    if 2 * rest < den then some below
    else if den < 2 * rest then some (below + 1)
    else
      match tie with
      | .up => some (below + 1)
      | .even => some (if below % 2 = 0 then below else below + 1)
  | true, false => some below
  | false, true => some (below + 1)
  | false, false => none

/-- The first grid with a hit, from the power of ten above the number down to seventeen digits.
No coarser grid has a hit, so the digits do not end in a zero. -/
def Interval.decimal (i : Interval) (tie : Tie) : Decimal :=
  let k := decade i.value i.denominator
  let hits := (List.range 18).findSome? fun (n : Nat) =>
    (i.onGrid? tie (k - n)).map fun c => Decimal.mk c (k - n)
  hits.getD ⟨0, 0⟩

end Shortest

def shortestDecimal (tie : Tie) (m : Nat) (e : Int) : Decimal :=
  if m = 0 then ⟨0, 0⟩ else (Shortest.interval m e).decimal tie

/-- A number in its shortest digits, all of them around the point. -/
def plainText (x : Float) : String :=
  match Binary64.ofFloat x with
  | .nan => "NaN"
  | .infinite s => if s then "-inf" else "inf"
  | .finite s m e => (if s then "-" else "") ++ (shortestDecimal .up m e).positional

end RoadAudit
