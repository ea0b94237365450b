import RoadAudit.Numeric.Decimal

/-! # Fixed-point text

A number written with a given count of decimal places: its exact value rounded to the nearest
multiple, a half going to the even neighbour. -/

namespace RoadAudit

def roundHalfEven (n d : Nat) : Nat :=
  let q := n / d
  let r := n % d
  if d < 2 * r ∨ (2 * r = d ∧ q % 2 = 1) then q + 1 else q

theorem roundHalfEven_exact (q d : Nat) (hd : 0 < d) : roundHalfEven (q * d) d = q := by
  simp [roundHalfEven, hd]; omega

namespace Binary64

/-- `m * 2 ^ e` in units of `10 ^ (-places)`. -/
def inUnits (places m : Nat) (e : Int) : Nat :=
  if 0 ≤ e then m * twoPow e.toNat * tenPow places
  else roundHalfEven (m * tenPow places) (twoPow (-e).toNat)

def placed (places units : Nat) : String :=
  let ds := Decimal.digitsOf units
  let padded := Decimal.zeros (places + 1 - ds.length) ++ ds
  let whole := padded.length - places
  String.ofList (padded.take whole) ++ "." ++ String.ofList (padded.drop whole)

end Binary64

/-- A number with `places` decimals; a negative number keeps its sign even where it rounds to
zero, as does a negative zero. -/
def fixedText (places : Nat) (x : Float) : String :=
  match Binary64.ofFloat x with
  | .nan => "NaN"
  | .infinite s => if s then "-inf" else "inf"
  | .finite s m e =>
    (if s then "-" else "") ++ Binary64.placed places (Binary64.inUnits places m e)

end RoadAudit
